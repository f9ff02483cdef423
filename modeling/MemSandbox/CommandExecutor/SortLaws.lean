import MemSandbox.CommandExecutor.ReadCommands
import MemSandbox.Lib.Utf8
import Mathlib.Data.List.SplitBy

/-! # Sorting and collapsing

    `sort -u` drops a line whose key is that of the line before; `uniq` drops a
    line equal to the line before it.  On byte keys the two agree, since the
    key tells lines apart; with `-n` a key stands for many lines, and stability
    decides which of them is kept. -/

open Python

/-! ## Section 1: Lines and records -/

/-- The lines of a text; the last may lack its newline. -/
def textLines (text : Text) : List Text :=
  let parts := split (CodePoint.ofChar '\n') text
  if parts.getLastD [] = [] then parts.dropLast else parts

/-- The lines of all inputs, in order. -/
def inputLines (inputs : List CommandInput) : List Text :=
  inputs.flatMap fun input => textLines input.text

/-- The text that prints every line with a newline. -/
def printLines (lines : List Text) : Text := lines.flatMap fun line => line ++ py "\n"

theorem withoutLf_line (line : Text) : withoutLf (line ++ py "\n") = line := by
  rw [withoutLf, if_pos (endsWith_iff.mpr (List.suffix_append _ _))]
  exact List.dropLast_concat

theorem withoutLf_of_not_mem {line : Text} (h : CodePoint.ofChar '\n' ∉ line) :
    withoutLf line = line := by
  rw [withoutLf, if_neg]
  intro hends
  obtain ⟨front, rfl⟩ := endsWith_iff.mp hends
  exact h (List.mem_append_right _ (List.mem_singleton.mpr rfl))

/-- The records of a text are its lines. -/
theorem records_withoutLf (text : Text) : (records text).map withoutLf = textLines text := by
  have hne := split_ne_nil (CodePoint.ofChar '\n') text
  simp only [records, textLines]
  generalize hparts : split (CodePoint.ofChar '\n') text = parts at hne ⊢
  have hlast : parts.dropLast ++ [parts.getLastD []] = parts := by
    rw [List.getLastD_eq_getLast?, List.getLast?_eq_some_getLast hne]
    exact List.dropLast_append_getLast hne
  have hlines : (parts.dropLast.map fun part => part ++ py "\n").map withoutLf = parts.dropLast := by
    rw [List.map_map]
    exact List.map_id'' withoutLf_line _
  rw [List.map_append, hlines]
  by_cases hempty : parts.getLastD [] = []
  · rw [if_pos hempty, if_pos hempty]
    simp
  · rw [if_neg hempty, if_neg hempty, List.map_singleton, withoutLf_of_not_mem]
    · exact hlast
    · have hmem : parts.getLastD [] ∈ parts.dropLast ++ [parts.getLastD []] :=
        List.mem_append_right _ (List.mem_singleton.mpr rfl)
      rw [hlast] at hmem
      subst hparts
      exact (mem_split hmem).1

theorem not_mem_of_mem_textLines {text line : Text} (h : line ∈ textLines text) :
    CodePoint.ofChar '\n' ∉ line := by
  simp only [textLines] at h
  by_cases hempty : (split (CodePoint.ofChar '\n') text).getLastD [] = []
  · rw [if_pos hempty] at h
    exact (mem_split (List.mem_of_mem_dropLast h)).1
  · rw [if_neg hempty] at h
    exact (mem_split h).1

/-- Printed lines read back. -/
theorem textLines_printLines {lines : List Text}
    (h : ∀ line ∈ lines, CodePoint.ofChar '\n' ∉ line) : textLines (printLines lines) = lines := by
  have hsplit : split (CodePoint.ofChar '\n') (printLines lines) = lines ++ [[]] := by
    induction lines with
    | nil => rfl
    | cons line lines ih =>
      obtain ⟨hline, hlines⟩ := List.forall_mem_cons.mp h
      rw [printLines, List.flatMap_cons, List.append_assoc]
      show split _ (line ++ CodePoint.ofChar '\n' :: printLines lines) = _
      rw [split_append_cons, split_of_not_mem hline, ih hlines]
      rfl
  simp [textLines, hsplit]

/-! ## Section 2: Repeats -/

section repeats

variable {κ : Type} [DecidableEq κ]

/-- In an ordered list, what `dropRepeats` keeps is the first line of each key,
    and the keys of what it keeps are strictly ordered. -/
theorem dropRepeats_spec {r : κ → κ → Prop} (hr : ∀ a b, r a b → r b a → a = b)
    (previous : Option κ) {lines : List (κ × Text)} (h : lines.Pairwise fun a b => r a.1 b.1)
    (hprevious : ∀ k, previous = some k → ∀ a ∈ lines, r k a.1) :
    ((dropRepeats previous lines).Pairwise fun a b => r a.1 b.1 ∧ a.1 ≠ b.1) ∧
      ∀ a, a ∈ dropRepeats previous lines ↔
        previous ≠ some a.1 ∧ lines.find? (fun b => b.1 = a.1) = some a := by
  induction lines generalizing previous with
  | nil => simp [dropRepeats]
  | cons line lines ih =>
    obtain ⟨hline, hlines⟩ := List.pairwise_cons.mp h
    have hhead : ∀ k, some line.1 = some k → ∀ a ∈ lines, r k a.1 := by
      rintro k ⟨rfl⟩
      exact hline
    obtain ⟨hordered, hmem⟩ := ih (some line.1) hlines hhead
    by_cases hrepeat : previous = some line.1
    · rw [dropRepeats, if_pos hrepeat]
      refine ⟨hordered, fun a => ?_⟩
      rw [hmem, hrepeat, List.find?_cons]
      by_cases hkey : line.1 = a.1
      · simp [hkey]
      · simp [hkey]
    · rw [dropRepeats, if_neg hrepeat]
      constructor
      · refine List.pairwise_cons.mpr ⟨fun a ha => ?_, hordered⟩
        obtain ⟨hne, hfind⟩ := (hmem a).mp ha
        exact ⟨hline a (List.mem_of_find?_eq_some hfind), fun heq => hne (congrArg some heq)⟩
      · intro a
        rw [List.mem_cons, hmem, List.find?_cons]
        by_cases hkey : line.1 = a.1
        · simp only [hkey, ne_eq, not_true_eq_false, false_and, or_false, decide_true]
          rw [← hkey]
          constructor
          · rintro rfl
            exact ⟨hrepeat, rfl⟩
          · rintro ⟨-, heq⟩
            exact (Option.some.inj heq).symm
        · have hne : a ≠ line := fun heq => hkey (congrArg Prod.fst heq).symm
          simp only [hkey, hne, ne_eq, Option.some.injEq, not_false_eq_true, true_and, false_or,
            decide_false]
          constructor
          · intro hfind
            refine ⟨fun heq => ?_, hfind⟩
            -- a key before the head cannot come back after it
            have hmemb := List.mem_of_find?_eq_some hfind
            exact hkey (hr _ _ (hline a hmemb) (hprevious a.1 heq line List.mem_cons_self))
          · exact fun hfind => hfind.2

/-- A key that tells lines apart keeps the lines that the lines themselves would. -/
theorem dropRepeats_lines (previous : Option (κ × Text)) (lines : List (κ × Text))
    (h : ∀ a ∈ previous.toList ++ lines, ∀ b ∈ lines, a.1 = b.1 ↔ a.2 = b.2) :
    (dropRepeats (previous.map Prod.fst) lines).map Prod.snd =
      (dropRepeats (previous.map Prod.snd) (lines.map fun line => (line.2, line.2))).map
        Prod.snd := by
  induction lines generalizing previous with
  | nil => rfl
  | cons line lines ih =>
    have hnext := ih (some line) (by
      intro a ha b hb
      refine h a (List.mem_append_right _ ?_) b (List.mem_cons_of_mem _ hb)
      simpa using ha)
    simp only [Option.map_some] at hnext
    have hsame : previous.map Prod.fst = some line.1 ↔ previous.map Prod.snd = some line.2 := by
      cases previous with
      | none => simp
      | some a => simpa using h a (by simp) line List.mem_cons_self
    simp only [List.map_cons, dropRepeats]
    by_cases hrepeat : previous.map Prod.fst = some line.1
    · rw [if_pos hrepeat, if_pos (hsame.mp hrepeat), hnext]
    · rw [if_neg hrepeat, if_neg (fun hs => hrepeat (hsame.mpr hs)), List.map_cons, List.map_cons,
        hnext]

/-- The heads of runs that are constant, of which neighbours differ. -/
theorem dropRepeats_flatten {previous : Option Text} {runs : List (List Text)}
    (hruns : ∀ run ∈ runs, ∃ line, line ∈ run ∧ ∀ other ∈ run, other = line)
    (hchain : runs.IsChain fun a b => a.headD [] ≠ b.headD [])
    (hprevious : ∀ run, runs.head? = some run → previous ≠ some (run.headD [])) :
    (dropRepeats previous (runs.flatten.map fun line => (line, line))).map Prod.snd =
      runs.map (·.headD []) := by
  induction runs generalizing previous with
  | nil => rfl
  | cons run runs ih =>
    obtain ⟨hrun, hrest⟩ := List.forall_mem_cons.mp hruns
    obtain ⟨line, hline, hall⟩ := hrun
    -- what follows the head of a run repeats it
    have hskip : ∀ (more : List Text) rest, (∀ other ∈ more, other = line) →
        dropRepeats (some line) ((more ++ rest).map fun line => (line, line)) =
          dropRepeats (some line) (rest.map fun line => (line, line)) := by
      intro more rest hmore
      induction more with
      | nil => rfl
      | cons other more ihmore =>
        obtain ⟨rfl, hmore⟩ := List.forall_mem_cons.mp hmore
        rw [List.cons_append, List.map_cons, dropRepeats, if_pos rfl, ihmore hmore]
    cases run with
    | nil => simp at hline
    | cons first more =>
      obtain ⟨rfl, hmore⟩ := List.forall_mem_cons.mp hall
      have hfirst : previous ≠ some first := hprevious _ rfl
      have hnext : ∀ run, runs.head? = some run → some first ≠ some (run.headD []) := by
        intro run hhead heq
        have hne := (List.isChain_cons.mp hchain).1 run hhead
        exact hne (Option.some.inj heq)
      rw [List.flatten_cons, List.cons_append, List.map_cons, dropRepeats, if_neg hfirst,
        hskip more _ hmore, List.map_cons, List.map_cons,
        ih hrest (List.isChain_cons.mp hchain).2 hnext]
      rfl

/-- What `uniq` prints: one line of every run. -/
theorem uniqOutput_eq (label : Option Text) (text : Text) :
    uniqOutput false [⟨label, text⟩] =
      .ok (printLines ((dropRepeats none ((textLines text).map fun line => (line, line))).map
        Prod.snd)) := by
  have hruns : ∀ run ∈ (textLines text).splitBy (· == ·),
      ∃ line, line ∈ run ∧ ∀ other ∈ run, other = line := by
    intro run hrun
    have hchain := List.isChain_of_mem_splitBy hrun
    cases run with
    | nil => exact absurd hrun (List.nil_notMem_splitBy _ _)
    | cons line more =>
      have htrans : IsTrans Text fun a b => (a == b) = true :=
        ⟨fun a b c hab hbc => by rw [beq_iff_eq] at *; exact hab.trans hbc⟩
      have hall := (List.pairwise_cons.mp (List.isChain_iff_pairwise.mp hchain)).1
      refine ⟨line, List.mem_cons_self, List.forall_mem_cons.mpr ⟨rfl, fun other hother => ?_⟩⟩
      exact (beq_iff_eq.mp (hall other hother)).symm
  have hchain : ((textLines text).splitBy (· == ·)).IsChain fun a b => a.headD [] ≠ b.headD [] := by
    refine (List.isChain_getLast_head_splitBy _ _).imp_of_mem_imp ?_
    rintro a b ha hb ⟨hna, hnb, hne⟩ heq
    obtain ⟨line, hline, hall⟩ := hruns a ha
    apply beq_eq_false_iff_ne.mp hne
    rw [List.headD_eq_head?_getD, List.headD_eq_head?_getD, List.head?_eq_some_head hna,
      List.head?_eq_some_head hnb, Option.getD_some, Option.getD_some] at heq
    rw [← heq, hall _ (List.getLast_mem hna), hall _ (List.head_mem hna)]
  have hdrop := dropRepeats_flatten hruns hchain fun _ _ => (Option.some_ne_none _).symm
  rw [List.flatten_splitBy] at hdrop
  simp only [uniqOutput, records_withoutLf, hdrop, printLines, List.flatMap_map]
  rfl

end repeats

/-! ## Section 3: Orders -/

section orders

variable {κ : Type} [LinearOrder κ]

/-- The order in which `sort` prints keys. -/
def Follows (reverse : Bool) (a b : κ) : Prop := if reverse then b ≤ a else a ≤ b

/-- The same without equal keys. -/
def StrictlyFollows (reverse : Bool) (a b : κ) : Prop := if reverse then b < a else a < b

theorem Follows.antisymm {reverse : Bool} (a b : κ) (hab : Follows reverse a b)
    (hba : Follows reverse b a) : a = b := by
  cases reverse with
  | false => exact le_antisymm hab hba
  | true => exact le_antisymm hba hab

theorem Follows.strictly {reverse : Bool} {a b : κ} (h : Follows reverse a b) (hne : a ≠ b) :
    StrictlyFollows reverse a b := by
  cases reverse with
  | false => exact lt_of_le_of_ne h hne
  | true => exact lt_of_le_of_ne h hne.symm

/-- The keyed lines after `lines.sort`. -/
def orderedLines (reverse : Bool) (lines : List (κ × Text)) : List (κ × Text) :=
  if reverse then sorted (fun line => OrderDual.toDual line.1) lines else sorted Prod.fst lines

theorem orderedLines_perm (reverse : Bool) (lines : List (κ × Text)) :
    (orderedLines reverse lines).Perm lines := by
  cases reverse <;> exact sorted_perm _ _

theorem orderedLines_pairwise (reverse : Bool) (lines : List (κ × Text)) :
    (orderedLines reverse lines).Pairwise fun a b => Follows reverse a.1 b.1 := by
  cases reverse with
  | false => exact sorted_pairwise Prod.fst lines
  | true => exact sorted_pairwise (fun line : κ × Text => OrderDual.toDual line.1) lines

/-- The first line of a key is the first in input order, reversed or not. -/
theorem orderedLines_find (reverse : Bool) (lines : List (κ × Text)) (k : κ) :
    (orderedLines reverse lines).find? (fun line => line.1 = k) =
      lines.find? fun line => line.1 = k := by
  rw [← List.head?_filter, ← List.head?_filter]
  cases reverse with
  | false => exact congrArg List.head? (sorted_filter Prod.fst lines k)
  | true =>
    exact congrArg List.head?
      (sorted_filter (fun line : κ × Text => OrderDual.toDual line.1) lines (OrderDual.toDual k))

/-- What `-u` leaves: for each key the first line, in strict order of the keys. -/
theorem sortLines_unique (reverse : Bool) (lines : List (κ × Text)) :
    ∃ kept : List (κ × Text), sortLines reverse true lines = kept.map Prod.snd ∧
      (kept.Pairwise fun a b => StrictlyFollows reverse a.1 b.1) ∧
      ∀ a, a ∈ kept ↔ lines.find? (fun line => line.1 = a.1) = some a := by
  obtain ⟨hordered, hmem⟩ := dropRepeats_spec Follows.antisymm none
    (orderedLines_pairwise reverse lines) fun k hk => absurd hk (Option.some_ne_none _).symm
  refine ⟨_, rfl, hordered.imp fun h => h.1.strictly h.2, fun a => ?_⟩
  rw [← orderedLines_find reverse lines]
  exact (hmem a).trans (and_iff_right (Option.some_ne_none _).symm)

theorem sortLines_perm (reverse : Bool) (lines : List (κ × Text)) :
    (sortLines reverse false lines).Perm (lines.map Prod.snd) :=
  (orderedLines_perm reverse lines).map _

/-- With keys that tell lines apart, `-u` collapses what is printed without it. -/
theorem sortLines_collapse (reverse : Bool) {lines : List (κ × Text)}
    (h : ∀ a ∈ lines, ∀ b ∈ lines, a.1 = b.1 ↔ a.2 = b.2) :
    sortLines reverse true lines =
      (dropRepeats none ((sortLines reverse false lines).map fun line => (line, line))).map
        Prod.snd := by
  have hmem := fun a => (orderedLines_perm reverse lines).mem_iff (a := a)
  have hlines := dropRepeats_lines none (orderedLines reverse lines)
    fun a ha b hb => h a ((hmem a).mp (by simpa using ha)) b ((hmem b).mp hb)
  refine hlines.trans ?_
  show _ = (dropRepeats none (((orderedLines reverse lines).map Prod.snd).map _)).map Prod.snd
  rw [List.map_map]
  rfl

end orders

/-! ## Section 4: What the commands print -/

theorem inputLines_eq (inputs : List CommandInput) :
    (inputs.flatMap fun input => (records input.text).map withoutLf) = inputLines inputs :=
  List.flatMap_congr fun input _ => records_withoutLf input.text

theorem not_mem_of_mem_inputLines {inputs : List CommandInput} {line : Text}
    (h : line ∈ inputLines inputs) : CodePoint.ofChar '\n' ∉ line := by
  obtain ⟨input, -, hline⟩ := List.mem_flatMap.mp h
  exact not_mem_of_mem_textLines hline

/-- The keys of all lines, when every line has one. -/
theorem mapM_byteSortKey_eq_ok {lines : List Text} {keys : List Bytes} :
    lines.mapM byteSortKey = .ok keys ↔ lines.map encodeUtf8 = keys.map some := by
  induction lines generalizing keys with
  | nil => cases keys <;> simp [pure, Except.pure]
  | cons line lines ih =>
    rw [List.mapM_cons]
    simp only [Except.bind_eq_ok_iff, List.map_cons]
    constructor
    · rintro ⟨key, hkey, rest, hrest, hkeys⟩
      cases hkeys
      rw [List.map_cons, ih.mp hrest]
      cases hline : encodeUtf8 line with
      | none => simp [byteSortKey, hline] at hkey
      | some bytes =>
        simp only [byteSortKey, hline, Except.ok.injEq] at hkey
        rw [hkey]
    · intro h
      cases keys with
      | nil => simp at h
      | cons key keys =>
        rw [List.map_cons, List.cons.injEq] at h
        exact ⟨key, by simp [byteSortKey, h.1], keys, ih.mpr h.2, rfl⟩

/-- The keyed lines: the key of each is its bytes. -/
theorem zip_spec {lines : List Text} {keys : List Bytes}
    (h : lines.map encodeUtf8 = keys.map some) :
    (keys.zip lines).map Prod.snd = lines ∧
      ∀ a ∈ keys.zip lines, encodeUtf8 a.2 = some a.1 := by
  have hlength : lines.length = keys.length := by simpa using congrArg List.length h
  refine ⟨List.map_snd_zip hlength.le, fun a ha => ?_⟩
  obtain ⟨i, hi, rfl⟩ := List.mem_iff_getElem.mp ha
  have hget := congrArg (·[i]?) h
  rw [List.length_zip] at hi
  simp only [List.getElem?_map, List.getElem?_eq_getElem (show i < lines.length by omega),
    List.getElem?_eq_getElem (show i < keys.length by omega), Option.map_some,
    Option.some.injEq] at hget
  rw [List.getElem_zip]
  exact hget

/-- Bytes tell lines apart. -/
theorem key_eq_iff {lines : List (Bytes × Text)} (h : ∀ a ∈ lines, encodeUtf8 a.2 = some a.1) :
    ∀ a ∈ lines, ∀ b ∈ lines, a.1 = b.1 ↔ a.2 = b.2 := by
  intro a ha b hb
  constructor
  · intro heq
    have hda := decodeUtf8_encodeUtf8 (h a ha)
    have hdb := decodeUtf8_encodeUtf8 (h b hb)
    rw [heq] at hda
    exact Option.some.inj (hda.symm.trans hdb)
  · intro heq
    have hka := h a ha
    rw [heq, h b hb] at hka
    exact (Option.some.inj hka).symm

/-- What `sort` prints by bytes. -/
theorem sortOutput_bytes [UnicodeData] {reverse unique : Bool} {inputs : List CommandInput}
    {output : Text} :
    sortOutput false reverse unique inputs = .ok output ↔
      ∃ keys : List Bytes, (inputLines inputs).map encodeUtf8 = keys.map some ∧
        output = printLines (sortLines reverse unique (keys.zip (inputLines inputs))) := by
  simp only [sortOutput, inputLines_eq, Bool.false_eq_true, if_false, Except.bind_eq_ok_iff,
    mapM_byteSortKey_eq_ok]
  constructor
  · rintro ⟨lines, ⟨keys, hkeys, hlines⟩, houtput⟩
    obtain rfl := Except.ok.inj hlines
    exact ⟨keys, hkeys, (Except.ok.inj houtput).symm⟩
  · rintro ⟨keys, hkeys, rfl⟩
    exact ⟨_, ⟨keys, hkeys, rfl⟩, rfl⟩

theorem sortOutput_numeric [UnicodeData] (reverse unique : Bool) (inputs : List CommandInput) :
    sortOutput true reverse unique inputs = .ok (printLines (sortLines reverse unique
      ((inputLines inputs).map fun line => (numericSortKey line, line)))) := by
  simp only [sortOutput, inputLines_eq, if_true]
  rfl

/-- By bytes, `sort -u` prints what `uniq` makes of what `sort` prints. -/
theorem sortOutput_collapse [UnicodeData] (reverse : Bool) (inputs : List CommandInput) :
    sortOutput false reverse true inputs = (do
      let text ← sortOutput false reverse false inputs
      uniqOutput false [⟨none, text⟩]) := by
  cases hkeys : (inputLines inputs).mapM byteSortKey with
  | error e =>
    have herror : ∀ unique, sortOutput false reverse unique inputs = .error e := by
      intro unique
      simp only [sortOutput, inputLines_eq, Bool.false_eq_true, if_false, hkeys]
      rfl
    rw [herror, herror]
    rfl
  | ok keys =>
    have hspec := mapM_byteSortKey_eq_ok.mp hkeys
    obtain ⟨hlines, hbytes⟩ := zip_spec hspec
    have houtput : ∀ unique, sortOutput false reverse unique inputs =
        .ok (printLines (sortLines reverse unique (keys.zip (inputLines inputs)))) :=
      fun unique => sortOutput_bytes.mpr ⟨keys, hspec, rfl⟩
    have hclean : ∀ line ∈ sortLines reverse false (keys.zip (inputLines inputs)),
        CodePoint.ofChar '\n' ∉ line := by
      intro line hline
      rw [(sortLines_perm reverse _).mem_iff, hlines] at hline
      exact not_mem_of_mem_inputLines hline
    rw [houtput, houtput]
    show _ = uniqOutput false [⟨none, printLines _⟩]
    rw [uniqOutput_eq, textLines_printLines hclean, sortLines_collapse reverse (key_eq_iff hbytes)]

/-- `sort -u` is `sort` piped to `uniq`: the distinct lines in strict order of
    their bytes; `sort` prints all lines, and `sort -nu` the first line of every
    numeric key. -/
theorem sortOutput_laws [UnicodeData] (inputs : List CommandInput) :
    (∀ reverse, sortOutput false reverse true inputs = (do
      let text ← sortOutput false reverse false inputs
      uniqOutput false [⟨none, text⟩])) ∧
    (∀ reverse output, sortOutput false reverse true inputs = .ok output →
      ∃ (lines : List Text) (keys : List Bytes), output = printLines lines ∧
        (∀ line, line ∈ lines ↔ line ∈ inputLines inputs) ∧
        lines.map encodeUtf8 = keys.map some ∧ keys.Pairwise (StrictlyFollows reverse)) ∧
    (∀ numeric reverse output, sortOutput numeric reverse false inputs = .ok output →
      ∃ lines : List Text, output = printLines lines ∧ lines.Perm (inputLines inputs)) ∧
    (∀ reverse, ∃ lines : List Text,
      sortOutput true reverse true inputs = .ok (printLines lines) ∧
        (lines.map numericSortKey).Pairwise (StrictlyFollows reverse) ∧
        ∀ line, line ∈ lines ↔
          (inputLines inputs).find? (fun l => numericSortKey l = numericSortKey line) = some line) ∧
    ∀ reverse unique, (∃ output, sortOutput false reverse unique inputs = .ok output) ↔
      ∀ line ∈ inputLines inputs, ValidUtf8 line := by
  refine ⟨fun reverse => sortOutput_collapse reverse inputs, ?_, ?_, ?_, ?_⟩
  · intro reverse output h
    obtain ⟨keys, hkeys, rfl⟩ := sortOutput_bytes.mp h
    obtain ⟨hlines, hbytes⟩ := zip_spec hkeys
    obtain ⟨kept, hkept, hordered, hmem⟩ := sortLines_unique reverse (keys.zip (inputLines inputs))
    have hkeptBytes : ∀ a ∈ kept, encodeUtf8 a.2 = some a.1 := fun a ha =>
      hbytes a (List.mem_of_find?_eq_some ((hmem a).mp ha))
    refine ⟨kept.map Prod.snd, kept.map Prod.fst, by rw [hkept], fun line => ?_, ?_, ?_⟩
    · rw [← hlines, List.mem_map, List.mem_map]
      constructor
      · rintro ⟨a, ha, rfl⟩
        exact ⟨a, List.mem_of_find?_eq_some ((hmem a).mp ha), rfl⟩
      · rintro ⟨a, ha, rfl⟩
        refine ⟨a, (hmem a).mpr ?_, rfl⟩
        have hfound : ((keys.zip (inputLines inputs)).find? fun line => line.1 = a.1).isSome :=
          List.find?_isSome.mpr ⟨a, ha, decide_eq_true rfl⟩
        obtain ⟨b, hb⟩ := Option.isSome_iff_exists.mp hfound
        have hkey : b.1 = a.1 := by simpa using List.find?_some hb
        have hline := (key_eq_iff hbytes b (List.mem_of_find?_eq_some hb) a ha).mp hkey
        rw [Prod.ext hkey hline] at hb
        convert hb
    · rw [List.map_map, List.map_map]
      exact List.map_congr_left hkeptBytes
    · exact List.pairwise_map.mpr hordered
  · intro numeric reverse output h
    cases numeric with
    | false =>
      obtain ⟨keys, hkeys, rfl⟩ := sortOutput_bytes.mp h
      have hperm := sortLines_perm reverse (keys.zip (inputLines inputs))
      rw [(zip_spec hkeys).1] at hperm
      exact ⟨_, rfl, hperm⟩
    | true =>
      rw [sortOutput_numeric, Except.ok.injEq] at h
      refine ⟨_, h.symm, (sortLines_perm reverse _).trans ?_⟩
      rw [List.map_map]
      exact List.Perm.of_eq (List.map_id _)
  · intro reverse
    obtain ⟨kept, hkept, hordered, hmem⟩ := sortLines_unique reverse
      ((inputLines inputs).map fun line => (numericSortKey line, line))
    have hfirst : ∀ a, a ∈ kept ↔ a.1 = numericSortKey a.2 ∧
        (inputLines inputs).find? (fun l => numericSortKey l = a.1) = some a.2 := by
      intro a
      rw [hmem, List.find?_map, Option.map_eq_some_iff]
      constructor
      · rintro ⟨line, hline, rfl⟩
        exact ⟨rfl, hline⟩
      · rintro ⟨hkey, hline⟩
        exact ⟨a.2, hline, Prod.ext hkey.symm rfl⟩
    have hkeys : (kept.map Prod.snd).map numericSortKey = kept.map Prod.fst := by
      rw [List.map_map]
      exact List.map_congr_left fun a ha => ((hfirst a).mp ha).1.symm
    refine ⟨kept.map Prod.snd, by rw [sortOutput_numeric, hkept], ?_, fun line => ?_⟩
    · rw [hkeys]
      exact List.pairwise_map.mpr hordered
    · rw [List.mem_map]
      constructor
      · rintro ⟨a, ha, rfl⟩
        obtain ⟨hkey, hline⟩ := (hfirst a).mp ha
        rwa [hkey] at hline
      · intro hline
        exact ⟨(numericSortKey line, line), (hfirst _).mpr ⟨rfl, hline⟩, rfl⟩
  · intro reverse unique
    constructor
    · rintro ⟨output, h⟩ line hline
      obtain ⟨keys, hkeys, -⟩ := sortOutput_bytes.mp h
      have hmem : encodeUtf8 line ∈ keys.map some := hkeys ▸ List.mem_map.mpr ⟨line, hline, rfl⟩
      obtain ⟨key, -, hkey⟩ := List.mem_map.mp hmem
      rw [ValidUtf8, ← hkey]
      rfl
    · intro hvalid
      obtain ⟨keys, hkeys⟩ : ∃ keys : List Bytes,
          (inputLines inputs).map encodeUtf8 = keys.map some := by
        refine ⟨(inputLines inputs).map fun line => (encodeUtf8 line).getD [], ?_⟩
        rw [List.map_map]
        refine List.map_congr_left fun line hline => ?_
        obtain ⟨bytes, hbytes⟩ := Option.isSome_iff_exists.mp (hvalid line hline)
        simp [hbytes]
      exact ⟨_, sortOutput_bytes.mpr ⟨keys, hkeys, rfl⟩⟩

/-- A file without a final newline, and lines on the standard input. -/
def sampleInputs : List CommandInput :=
  [⟨some (py "notes"), py "10 b\n9 a\n010 c"⟩, ⟨some (py "-"), py "9 a\n"⟩]

theorem sortOutput_laws_sample : ∃ (lines : List Text) (keys : List Bytes),
    py "010 c\n10 b\n9 a\n" = printLines lines ∧
      (∀ line, line ∈ lines ↔ line ∈ inputLines sampleInputs) ∧
      lines.map encodeUtf8 = keys.map some ∧ keys.Pairwise (StrictlyFollows false) :=
  (@sortOutput_laws ⟨fun _ => none⟩ sampleInputs).2.1 false _ (by decide +kernel)
