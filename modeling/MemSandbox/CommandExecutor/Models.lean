import MemSandbox.CommandExecutor.Environment
import MemSandbox.Lib.Strings
import MemSandbox.Workspace.Models

/-! # Plans and environments of the command language

    The plan values of `command_executor/models.py` and the environment a
    command sees: the approved environment under an overlay whose values are
    revealed only when they are read. -/

open Python

/-! ## Section 1: Plans -/

/-- Eligibility condition for an immutable plan command. -/
inductive Connector where
  | always
  | onSuccess
  deriving DecidableEq, Repr

/-- Supported stdout redirection modes. -/
inductive RedirectionMode where
  | replace
  | append
  deriving DecidableEq, Repr

/-- A quote-aware word fragment with expansion behavior. -/
structure WordFragment where
  text : Text
  expandsEnvironment : Bool
  deriving DecidableEq

/-- Adjacent fragments that produce one argv entry. -/
structure CommandWord where
  fragments : List WordFragment
  deriving DecidableEq

/-- One trailing stdout destination. -/
structure StdoutRedirection where
  mode : RedirectionMode
  destination : CommandWord
  deriving DecidableEq

/-- One immutable simple-command stage. -/
structure CommandStage where
  words : List CommandWord
  nonempty : words ≠ []
  deriving DecidableEq

/-- One command or pipeline with one eligibility connector. -/
structure PlanUnit where
  connector : Connector
  stages : List CommandStage
  redirection : Option StdoutRedirection
  nonempty : stages ≠ []
  deriving DecidableEq

/-- A fully parsed plan that is safe to dispatch. -/
structure ExecutionPlan where
  units : List PlanUnit
  nonempty : units ≠ []
  deriving DecidableEq

/-! ## Section 2: Environments -/

/-- `_require_environment_name`. -/
def requireEnvironmentName (name : Text) : Except PyError Unit :=
  require (isEnvironmentName name = true) .valueError
    (py "environment name must use shell variable syntax")

/-- `CommandEnvironment.get`. -/
def CommandEnvironment.get (environment : CommandEnvironment) (name : Text) :
    Except PyError Text := do
  requireEnvironmentName name
  .ok (((environment.values.find? fun item => item.name = name).map EnvironmentValue.value).getD [])

/-- `CommandEnvironmentOverlayEntry`; `revealText` is what its value reveals. -/
structure CommandEnvironmentOverlayEntry where
  name : Text
  revealText : Except PyError Text
  name_syntax : isEnvironmentName name = true
  not_pwd : name ≠ py "PWD"

/-- `CommandEnvironmentOverlay`, its entries sorted by name. -/
structure CommandEnvironmentOverlay where
  entries : List CommandEnvironmentOverlayEntry
  ordered : (entries.map CommandEnvironmentOverlayEntry.name).Pairwise (· < ·)

namespace CommandEnvironmentOverlay

/-- `CommandEnvironmentOverlay()`. -/
def empty : CommandEnvironmentOverlay where
  entries := []
  ordered := .nil

/-- `CommandEnvironmentOverlay.get`. -/
def get (overlay : CommandEnvironmentOverlay) (name : Text) : Except PyError (Option Text) := do
  requireEnvironmentName name
  match overlay.entries.find? fun entry => entry.name = name with
  | some entry => do
    let value ← entry.revealText
    .ok (some value)
  | none => .ok none

/-- `CommandEnvironmentOverlay.contains`. -/
def contains (overlay : CommandEnvironmentOverlay) (name : Text) : Except PyError Bool := do
  requireEnvironmentName name
  .ok (overlay.entries.any fun entry => entry.name = name)

end CommandEnvironmentOverlay

/-- `CommandEnvironmentView`. -/
structure CommandEnvironmentView where
  base : CommandEnvironment
  overlay : CommandEnvironmentOverlay

namespace CommandEnvironmentView

/-- `CommandEnvironmentView.get`. -/
def get (view : CommandEnvironmentView) (name : Text) : Except PyError Text := do
  requireEnvironmentName name
  match ← view.overlay.get name with
  | some value => .ok value
  | none => view.base.get name

/-- `CommandEnvironmentView.is_overlay_name`. -/
def isOverlayName (view : CommandEnvironmentView) (name : Text) : Except PyError Bool :=
  view.overlay.contains name

/-- The overlay values reveal without an error. -/
def Reveals (view : CommandEnvironmentView) : Prop :=
  ∀ entry ∈ view.overlay.entries, ∃ value, entry.revealText = .ok value

/-- A lookup of a well-formed name returns. -/
theorem get_returns {view : CommandEnvironmentView} (h : view.Reveals) {name : Text}
    (hname : isEnvironmentName name = true) : ∃ value, view.get name = .ok value := by
  have hrequire : requireEnvironmentName name = .ok () := require_eq_ok.mpr hname
  unfold get CommandEnvironmentOverlay.get CommandEnvironment.get
  rw [hrequire]
  cases hfind : view.overlay.entries.find? fun entry => entry.name = name with
  | none => exact ⟨_, rfl⟩
  | some entry =>
    obtain ⟨value, hvalue⟩ := h entry (List.mem_of_find?_eq_some hfind)
    refine ⟨value, ?_⟩
    simp only [hvalue, bind, Except.bind]

end CommandEnvironmentView
