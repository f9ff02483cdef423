import MemSandbox.Core.Errors

/-! # The approved environment

    `EnvironmentValue` and `CommandEnvironment` of
    `command_executor/models.py`: names in shell variable syntax, values that
    are UTF-8 text, and no name twice. -/

open Python

/-- The characters a variable's name may start with. -/
def isNameStart (c : CodePoint) : Bool :=
  (0x41 ≤ c.val && c.val ≤ 0x5A) || (0x61 ≤ c.val && c.val ≤ 0x7A) || c = 0x5F

/-- `_ENVIRONMENT_NAME.fullmatch(text)`. -/
def isEnvironmentName : Text → Bool
  | [] => false
  | c :: rest => isNameStart c && rest.all fun c => isNameStart c || (0x30 ≤ c.val && c.val ≤ 0x39)

/-- `EnvironmentValue`. -/
structure EnvironmentValue where
  name : Text
  value : Text
  name_syntax : isEnvironmentName name = true
  utf8 : ValidUtf8 value

/-- `CommandEnvironment`. -/
structure CommandEnvironment where
  values : List EnvironmentValue
  distinct : (values.map EnvironmentValue.name).Nodup

namespace EnvironmentValue

/-- `EnvironmentValue(name, value)`. -/
def new (name value : Text) : Except PyError EnvironmentValue :=
  if hname : isEnvironmentName name = true then
    if hvalue : ValidUtf8 value then
      .ok ⟨name, value, hname, hvalue⟩
    else
      raise .valueError (py "environment value must be valid UTF-8 text")
  else
    raise .valueError (py "environment name must use shell variable syntax")

theorem ext_fields {a b : EnvironmentValue} (hname : a.name = b.name) (hvalue : a.value = b.value) :
    a = b := by
  cases a
  cases b
  simp_all

theorem new_eq_ok {name value : Text} {item : EnvironmentValue} :
    new name value = .ok item ↔ item.name = name ∧ item.value = value := by
  unfold new
  constructor
  · intro h
    split at h
    · split at h
      · rw [← Except.ok.inj h]
        exact ⟨rfl, rfl⟩
      · exact absurd h raise_ne_ok
    · exact absurd h raise_ne_ok
  · intro h
    obtain ⟨rfl, rfl⟩ := h
    rw [dif_pos item.name_syntax, dif_pos item.utf8]

theorem new_raises {P : ErrorClass → Prop} (h : P .valueError) (name value : Text) :
    Raises P (new name value) := by
  unfold new
  split
  · split
    · exact .ok
    · exact Raises.raise_iff.mpr h
  · exact Raises.raise_iff.mpr h

end EnvironmentValue

namespace CommandEnvironment

/-- The loop of `_require_environment_values`. -/
def requireDistinct : List EnvironmentValue → List Text → Except PyError Unit
  | [], _ => .ok ()
  | item :: rest, seen => do
    require (item.name ∉ seen) .valueError (py "duplicate environment name: " ++ item.name)
    requireDistinct rest (item.name :: seen)

theorem requireDistinct_eq_ok {values : List EnvironmentValue} {seen : List Text} {u : Unit} :
    requireDistinct values seen = .ok u ↔
      (values.map EnvironmentValue.name).Nodup ∧ ∀ item ∈ values, item.name ∉ seen := by
  induction values generalizing seen with
  | nil => simp [requireDistinct]
  | cons item rest ih =>
    simp only [requireDistinct, Except.bind_eq_ok_iff, require_eq_ok, ih, List.map_cons,
      List.nodup_cons, List.mem_map, not_exists, not_and]
    constructor
    · intro h
      obtain ⟨-, hitem, hnodup, hrest⟩ := h
      refine ⟨⟨?_, hnodup⟩, List.forall_mem_cons.mpr ⟨hitem, ?_⟩⟩
      · intro other hother hname
        exact hrest other hother (by rw [hname]; exact List.mem_cons_self)
      · exact fun other hother hmem => hrest other hother (List.mem_cons_of_mem _ hmem)
    · intro h
      obtain ⟨⟨hnew, hnodup⟩, hall⟩ := h
      obtain ⟨hitem, hrest⟩ := List.forall_mem_cons.mp hall
      refine ⟨(), hitem, hnodup, ?_⟩
      intro other hother hmem
      rcases List.mem_cons.mp hmem with hname | hmem
      · exact hnew other hother hname
      · exact hrest other hother hmem

theorem requireDistinct_raises {P : ErrorClass → Prop} (h : P .valueError)
    (values : List EnvironmentValue) (seen : List Text) : Raises P (requireDistinct values seen) := by
  induction values generalizing seen with
  | nil => exact .ok
  | cons item rest ih => exact (Raises.of_require h).bind fun _ _ => ih _

/-- `CommandEnvironment(values)`. -/
def new (values : List EnvironmentValue) : Except PyError CommandEnvironment :=
  match h : requireDistinct values [] with
  | .ok _ => .ok ⟨values, (requireDistinct_eq_ok.mp h).1⟩
  | .error e => .error e

theorem new_eq_ok {values : List EnvironmentValue} {environment : CommandEnvironment} :
    new values = .ok environment ↔ environment.values = values := by
  obtain ⟨values', hdistinct⟩ := environment
  unfold new
  constructor
  · intro h
    split at h
    · exact (congrArg CommandEnvironment.values (Except.ok.inj h)).symm
    · cases h
  · intro h
    subst h
    have hok : requireDistinct values' [] = .ok () := requireDistinct_eq_ok.mpr ⟨hdistinct, by simp⟩
    split
    · rfl
    · next e he =>
      rw [hok] at he
      cases he

theorem new_raises {P : ErrorClass → Prop} (h : P .valueError) (values : List EnvironmentValue) :
    Raises P (new values) := by
  have hraises := requireDistinct_raises h values []
  unfold new
  split
  · exact .ok
  · next e he => exact Raises.error_iff.mpr (hraises.of_error e he)

end CommandEnvironment
