import Docblock.Proofs.Parser.Session

/-!
# The settings of a parser in use

A parser starts with settings that pass their check, and every later state can be told from the
namespaces that were added since. Imports and namespaces are never mixed, in whichever order the
changes come. Adding a namespace does not look at it, though, so that a namespace without any
segment gets into the settings that way, and stays in them.
-/

namespace Docblock

namespace Settings

/-- Names are resolved in namespaces or through imports, not through both. -/
def Unmixed (s : Settings) : Prop := s.namespaces = [] ∨ s.imports = []

theorem Unmixed.check_eq {s : Settings} (h : s.Unmixed) :
    s.check = match s.namespaces.find? ClassName.isBlankPath with
      | some written => .error (.emptyNamespace written)
      | none => .ok () := by
  have hmixed : (!s.namespaces.isEmpty && !s.imports.isEmpty) = false := by
    rcases h with h | h <;> simp [h]
  unfold check
  rw [hmixed]
  rfl

theorem unmixed_of_check {s : Settings} (h : s.check = .ok ()) : s.Unmixed := by
  by_cases hmixed : (!s.namespaces.isEmpty && !s.imports.isEmpty) = true
  · simp [check, hmixed] at h
  · simp only [Bool.and_eq_true, Bool.not_eq_true', not_and, Bool.not_eq_false,
      List.isEmpty_iff] at hmixed
    by_cases hnamespaces : s.namespaces = []
    · exact .inl hnamespaces
    · exact .inr (hmixed (by simpa using hnamespaces))

theorem find?_eq_none_of_check {s : Settings} (h : s.check = .ok ()) :
    s.namespaces.find? ClassName.isBlankPath = none := by
  rw [(unmixed_of_check h).check_eq] at h
  split at h
  · cases h
  · assumption

theorem check_default : ({} : Settings).check = .ok () := rfl

end Settings

namespace Parser

inductive Unused (registry : Registry) : Parser → Prop where
  | new : Unused registry (Parser.new registry)
  | withSettings {settings : Settings} {p : Parser} :
      Parser.withSettings registry settings = .ok p → Unused registry p
  | ofDocument {document : String} {p : Parser} :
      Parser.ofDocument registry document = .ok p → Unused registry p

def attempt (p : Parser) : Change → Except SettingsError Parser
  | .addNamespace nameSpace => p.addNamespace nameSpace
  | .setImports imports => p.setImports imports
  | .setIgnoredNames names => .ok (p.setIgnoredNames names)
  | .setIgnoredNamespaces namespaces => .ok (p.setIgnoredNamespaces namespaces)
  | .setIgnoreNotImported ignore => .ok (p.setIgnoreNotImported ignore)
  | .setTarget target => .ok (p.setTarget target)

def after (p : Parser) : List Event → Parser
  | [] => p
  | .request request :: rest => after (p.respond request).2 rest
  | .change c :: rest => after (p.change c) rest

/-- The namespaces that a change adds; one that comes after imports is refused. -/
def addedBy (p : Parser) : Change → List String
  | .addNamespace nameSpace => if p.settings.imports.isEmpty then [nameSpace] else []
  | _ => []

def added (p : Parser) : List Event → List String
  | [] => []
  | .request request :: rest => added (p.respond request).2 rest
  | .change c :: rest => p.addedBy c ++ added (p.change c) rest

variable {registry : Registry} {p : Parser}

theorem check_of_withSettings {settings : Settings}
    (h : withSettings registry settings = .ok p) : p.settings.check = .ok () := by
  have hp := withSettings_eq h
  unfold withSettings at h
  split at h
  next hcheck => rw [hp]; exact hcheck
  · cases h

/-- The settings of a parser that is not used yet are valid. -/
theorem Unused.check (h : Unused registry p) : p.settings.check = .ok () := by
  cases h with
  | new => exact Settings.check_default
  | withSettings hmade => exact check_of_withSettings hmade
  | ofDocument hmade =>
    unfold Parser.ofDocument at hmade
    split at hmade
    · exact check_of_withSettings hmade
    · cases hmade

theorem change_eq_attempt (p : Parser) (c : Change) :
    p.change c = (p.attempt c).toOption.getD p := by
  cases c <;> rfl

theorem change_of_error {c : Change} {e : SettingsError} (h : p.attempt c = .error e) :
    p.change c = p := by
  rw [change_eq_attempt, h]
  rfl

/-- A change fails for one reason only: it would mix imports and namespaces. -/
theorem attempt_error {c : Change} {e : SettingsError} (h : p.attempt c = .error e) :
    e = .importsAndNamespaces := by
  cases c with
  | addNamespace nameSpace =>
    unfold attempt Parser.addNamespace Settings.addNamespace at h
    dsimp only at h
    split at h <;> cases h
    rfl
  | setImports imports =>
    unfold attempt Parser.setImports Settings.setImports at h
    dsimp only at h
    split at h <;> cases h
    rfl
  | setIgnoredNames names => cases h
  | setIgnoredNamespaces namespaces => cases h
  | setIgnoreNotImported ignore => cases h
  | setTarget target => cases h

theorem respond_settings (p : Parser) (request : Request) :
    (p.respond request).2.settings = p.settings := by
  cases request <;> rfl

theorem change_addNamespace (p : Parser) (nameSpace : String) :
    p.change (.addNamespace nameSpace) =
      if p.settings.imports.isEmpty then
        { p with settings :=
          { p.settings with namespaces := p.settings.namespaces ++ [nameSpace] } }
      else p := by
  unfold Parser.change Parser.addNamespace Settings.addNamespace
  dsimp only
  split <;> rfl

theorem change_setImports (p : Parser) (imports : List (String × String)) :
    p.change (.setImports imports) =
      if p.settings.namespaces.isEmpty then
        { p with settings := { p.settings with imports := Settings.importTable imports } }
      else p := by
  unfold Parser.change Parser.setImports Settings.setImports
  dsimp only
  split <;> rfl

theorem change_namespaces (p : Parser) (c : Change) :
    (p.change c).settings.namespaces = p.settings.namespaces ++ p.addedBy c := by
  cases c with
  | addNamespace nameSpace =>
    rw [change_addNamespace, addedBy]
    split
    · rfl
    · exact (List.append_nil _).symm
  | setImports imports =>
    rw [change_setImports]
    split <;> exact (List.append_nil _).symm
  | setIgnoredNames names => exact (List.append_nil _).symm
  | setIgnoredNamespaces namespaces => exact (List.append_nil _).symm
  | setIgnoreNotImported ignore => exact (List.append_nil _).symm
  | setTarget target => exact (List.append_nil _).symm

theorem unmixed_change (h : p.settings.Unmixed) (c : Change) : (p.change c).settings.Unmixed := by
  cases c with
  | addNamespace nameSpace =>
    rw [change_addNamespace]
    split
    next hfree => exact .inr (List.isEmpty_iff.mp hfree)
    · exact h
  | setImports imports =>
    rw [change_setImports]
    split
    next hfree => exact .inl (List.isEmpty_iff.mp hfree)
    · exact h
  | setIgnoredNames names => exact h
  | setIgnoredNamespaces namespaces => exact h
  | setIgnoreNotImported ignore => exact h
  | setTarget target => exact h

theorem unmixed_after (h : p.settings.Unmixed) (events : List Event) :
    (p.after events).settings.Unmixed := by
  induction events generalizing p with
  | nil => exact h
  | cons event rest ih =>
    cases event with
    | request request => exact ih (by rw [respond_settings]; exact h)
    | change c => exact ih (unmixed_change h c)

/-- Namespaces are only ever added. -/
theorem after_namespaces (p : Parser) (events : List Event) :
    (p.after events).settings.namespaces = p.settings.namespaces ++ p.added events := by
  induction events generalizing p with
  | nil => exact (List.append_nil _).symm
  | cons event rest ih =>
    cases event with
    | request request =>
      calc (p.after (.request request :: rest)).settings.namespaces
        _ = (p.respond request).2.settings.namespaces ++ (p.respond request).2.added rest := ih _
        _ = p.settings.namespaces ++ p.added (.request request :: rest) := by
          rw [respond_settings]; rfl
    | change c =>
      calc (p.after (.change c :: rest)).settings.namespaces
        _ = (p.change c).settings.namespaces ++ (p.change c).added rest := ih _
        _ = p.settings.namespaces ++ p.added (.change c :: rest) := by
          rw [change_namespaces, List.append_assoc]; rfl

/-- Whatever a parser is used for and however its settings are changed, the check of its settings
finds nothing but the first namespace without a segment among those that were added. A change that
fails would have mixed imports and namespaces, and leaves the parser as it is. -/
theorem check_after (hunused : Unused registry p) (events : List Event) :
    ((p.after events).settings.check =
      match (p.added events).find? ClassName.isBlankPath with
      | some written => .error (.emptyNamespace written)
      | none => .ok ()) ∧
    ∀ c e, (p.after events).attempt c = .error e →
      e = .importsAndNamespaces ∧ (p.after events).change c = p.after events := by
  have hstart := hunused.check
  have hunmixed := unmixed_after (Settings.unmixed_of_check hstart) events
  refine ⟨?_, fun c e herror => ⟨attempt_error herror, change_of_error herror⟩⟩
  rw [hunmixed.check_eq, after_namespaces, List.find?_append,
    Settings.find?_eq_none_of_check hstart, Option.none_or]

/-- A session that changes settings in every way, with changes that are refused. -/
def changingSession : List Event :=
  [.change (.setImports [("Route", "App\\Annotation\\Route")]),
   .change (.addNamespace "\\"),
   .request (.parse "@Route(\"/\")" "imported"),
   .change (.setImports []),
   .change (.addNamespace "App\\Mapping"),
   .change (.setImports [("route", "App\\Annotation\\Route")]),
   .change (.setIgnoredNames ["todo"]),
   .change (.setTarget .onClass)]

theorem check_after_changingSession :
    Unused Sample.registry Sample.plainParser ∧
      (Sample.plainParser.after changingSession).settings.check = .ok () ∧
      Sample.plainParser.added changingSession = ["App\\Mapping"] := by
  have hunused : Unused Sample.registry Sample.plainParser := .new
  have hadded : Sample.plainParser.added changingSession = ["App\\Mapping"] := by decide +kernel
  have hcheck := (check_after hunused changingSession).1
  rw [hadded] at hcheck
  exact ⟨hunused, hcheck, hadded⟩

/-- A namespace that no parser can be made with can be added to a new one. -/
theorem check_after_blankNamespace :
    Unused Sample.registry Sample.plainParser ∧
      (Sample.plainParser.after [.change (.addNamespace "\\")]).settings.check =
        .error (.emptyNamespace "\\") ∧
      withSettings Sample.registry { namespaces := ["\\"] } = .error (.emptyNamespace "\\") :=
  ⟨.new, rfl, rfl⟩

end Parser

end Docblock
