import Docblock.Parser
import Docblock.Proofs.Text.Idempotence
import Docblock.Sample
import Mathlib.Data.List.Induction
import Mathlib.Data.List.Nodup

/-!
# Ways of installing imports

Imports come into the settings of a parser in three ways: from a document, with settings that are
given as they are, or by a later change. The first and the last put the aliases into lower case,
and of aliases that then fall together the last one counts. Given settings keep their aliases, and
the first one that matches counts. So the three ways agree as long as the first and the last match
of every name lead to the same class.
-/

namespace Docblock

namespace Sorted

variable {α : Type}

theorem mem_put {key : String} {a : α} {entries : List (String × α)} {e : String × α}
    (h : e ∈ put key a entries) : e = (key, a) ∨ e ∈ entries := by
  induction entries with
  | nil => exact .inl (List.mem_singleton.1 h)
  | cons entry rest ih =>
    unfold put at h
    split at h
    · rcases List.mem_cons.1 h with rfl | h
      · exact .inl rfl
      · exact .inr (List.mem_cons_of_mem entry h)
    · split at h
      · exact List.mem_cons.1 h
      · rcases List.mem_cons.1 h with rfl | h
        · exact .inr List.mem_cons_self
        · exact (ih h).imp_right (List.mem_cons_of_mem entry)

theorem table_concat (entries : List (String × α)) (e : String × α) :
    table (entries ++ [e]) = put e.1 e.2 (table entries) := by
  unfold table
  rw [List.foldl_append]
  rfl

theorem mem_of_mem_table {entries : List (String × α)} {e : String × α} (h : e ∈ table entries) :
    e ∈ entries := by
  induction entries using List.reverseRecOn with
  | nil => exact h
  | append_singleton entries last ih =>
    rw [table_concat] at h
    rw [List.mem_append, List.mem_singleton]
    exact (mem_put h).symm.imp_left ih

/-- A table has the last of the entries under a key. -/
theorem lookup_table (entries : List (String × α)) (key : String) :
    (table entries).lookup key =
      ((entries.filter fun e => e.1 == key).getLast?).map Prod.snd := by
  induction entries using List.reverseRecOn with
  | nil => rfl
  | append_singleton entries last ih =>
    rw [table_concat, lookup_put, List.filter_append]
    by_cases hsame : key = last.1
    · simp [hsame]
    · simp [hsame, Ne.symm hsame, ih]

end Sorted

namespace Settings

def matching (imports : List (String × String)) (shortName : String) : List (String × String) :=
  imports.filter fun entry => Text.lower entry.1 == Text.lower shortName

/-- The first and the last match of every name lead to the same class. -/
def Unambiguous (imports : List (String × String)) : Prop :=
  ∀ shortName first last, (matching imports shortName).head? = some first →
    (matching imports shortName).getLast? = some last → first.2 = last.2

theorem unambiguous_iff {imports : List (String × String)} : Unambiguous imports ↔
    ∀ shortName, (matching imports shortName).head?.map Prod.snd =
      (matching imports shortName).getLast?.map Prod.snd := by
  refine forall_congr' fun shortName => ?_
  cases hmatching : matching imports shortName with
  | nil => simp
  | cons entry rest =>
    rw [List.head?_cons, List.getLast?_eq_some_getLast (List.cons_ne_nil entry rest)]
    simp

/-- Aliases that differ regardless of case leave one match at most. -/
theorem unambiguous_of_nodup {imports : List (String × String)}
    (h : (imports.map fun entry => Text.lower entry.1).Nodup) : Unambiguous imports := by
  intro shortName first last hfirst hlast
  have hmem {entry : String × String} (hentry : entry ∈ matching imports shortName) :
      entry ∈ imports ∧ Text.lower entry.1 = Text.lower shortName := by
    simpa [matching] using hentry
  obtain ⟨hfirst, hfirstKey⟩ := hmem (List.mem_of_head? hfirst)
  obtain ⟨hlast, hlastKey⟩ := hmem (List.mem_of_getLast? hlast)
  rw [List.inj_on_of_nodup_map h hfirst hlast (hfirstKey.trans hlastKey.symm)]

/-- Given settings find the first match. -/
theorem import?_eq_head? (s : Settings) (shortName : String) :
    s.import? shortName = (matching s.imports shortName).head?.map Prod.snd := by
  unfold import? matching
  rw [List.head?_filter]

theorem find?_eq_lookup {imports : List (String × String)}
    (h : ∀ entry ∈ imports, Text.lower entry.1 = entry.1) (key : String) :
    (imports.find? fun entry => Text.lower entry.1 == key).map Prod.snd = imports.lookup key := by
  induction imports with
  | nil => rfl
  | cons entry rest ih =>
    have hrest := ih fun other hother => h other (List.mem_cons_of_mem entry hother)
    rw [List.find?_cons, h entry List.mem_cons_self, List.lookup_cons, Bool.beq_comm]
    cases key == entry.1 with
    | true => rfl
    | false => exact hrest

/-- With aliases in lower case it is the last match that is found. -/
theorem import?_importTable {s : Settings} {imports : List (String × String)}
    (h : s.imports = importTable imports) (shortName : String) :
    s.import? shortName = (matching imports shortName).getLast?.map Prod.snd := by
  have hlower : ∀ entry ∈ importTable imports, Text.lower entry.1 = entry.1 := by
    intro entry hentry
    obtain ⟨written, -, rfl⟩ := List.mem_map.1 (Sorted.mem_of_mem_table hentry)
    exact Text.lower_lower written.1
  unfold import?
  rw [h, find?_eq_lookup hlower, importTable, Sorted.lookup_table, List.filter_map,
    List.getLast?_map, Option.map_map]
  rfl

theorem check_of_namespaces_eq_nil {s : Settings} (h : s.namespaces = []) : s.check = .ok () := by
  unfold check
  rw [h]
  rfl

/-- Settings without namespaces are installed from a document whatever imports they have. -/
theorem load_eq {document : String} {s : Settings}
    (hread : (Toml.read? document).bind ofTable? = some s) (h : s.namespaces = []) :
    load document = .ok { s with imports := importTable s.imports } := by
  have hcheck : { s with imports := importTable s.imports }.check = .ok () :=
    check_of_namespaces_eq_nil h
  unfold load
  rw [hread]
  dsimp only
  unfold install
  dsimp only
  rw [hcheck]

end Settings

namespace Parser

open Settings

theorem withSettings_of_namespaces_eq_nil (registry : Registry) {s : Settings}
    (h : s.namespaces = []) : withSettings registry s = .ok ⟨registry, s, .initial⟩ := by
  unfold withSettings
  rw [check_of_namespaces_eq_nil h]

theorem ofDocument_eq (registry : Registry) {document : String} {s : Settings}
    (hread : (Toml.read? document).bind ofTable? = some s) (h : s.namespaces = []) :
    ofDocument registry document =
      .ok ⟨registry, { s with imports := importTable s.imports }, .initial⟩ := by
  unfold ofDocument
  rw [load_eq hread h]
  exact withSettings_of_namespaces_eq_nil registry h

theorem setImports_eq {p : Parser} (h : p.settings.namespaces = [])
    (imports : List (String × String)) : p.setImports imports =
      .ok { p with settings := { p.settings with imports := importTable imports } } := by
  have hempty : p.settings.namespaces.isEmpty = true := List.isEmpty_iff.2 h
  unfold Parser.setImports Settings.setImports
  rw [if_pos hempty]
  rfl

/-- From a document or by a change, imports lead from every name to its last match, and in given
settings to its first. The three ways agree exactly if these are the same, and so they do if the
aliases differ regardless of case. -/
theorem installed_agree_iff (registry : Registry) {document : String} {read direct : Settings}
    {p : Parser} (hread : (Toml.read? document).bind ofTable? = some read)
    (hsame : direct.imports = read.imports) (hfree : read.namespaces = [])
    (hdirect : direct.namespaces = []) (hp : p.settings.namespaces = []) :
    ∃ loaded given changed, ofDocument registry document = .ok loaded ∧
      withSettings registry direct = .ok given ∧ p.setImports read.imports = .ok changed ∧
      (∀ name, changed.settings.import? name = loaded.settings.import? name) ∧
      (∀ name, loaded.settings.import? name =
        (matching read.imports name).getLast?.map Prod.snd) ∧
      (∀ name, given.settings.import? name = (matching read.imports name).head?.map Prod.snd) ∧
      ((∀ name, given.settings.import? name = loaded.settings.import? name) ↔
        Unambiguous read.imports) ∧
      ((read.imports.map fun entry => Text.lower entry.1).Nodup → Unambiguous read.imports) := by
  have hloaded (name : String) :
      { read with imports := importTable read.imports }.import? name =
        (matching read.imports name).getLast?.map Prod.snd := import?_importTable rfl name
  have hgiven (name : String) :
      direct.import? name = (matching read.imports name).head?.map Prod.snd := by
    rw [import?_eq_head?, hsame]
  refine ⟨_, _, _, ofDocument_eq registry hread hfree,
    withSettings_of_namespaces_eq_nil registry hdirect, setImports_eq hp read.imports,
    fun name => ?_, hloaded, hgiven, ?_, unambiguous_of_nodup⟩
  · exact (import?_importTable rfl name).trans (hloaded name).symm
  · rw [unambiguous_iff]
    exact forall_congr' fun name => by rw [hgiven, hloaded]

/-- Imports with aliases in capital and in small letters, which differ regardless of case. -/
theorem installed_agree_mixedCase :
    let document := "imports = \x7b ORM = \"Acme\\\\Mapping\", Route = \"App\\\\Route\" \x7d"
    let read : Settings := { imports := [("ORM", "Acme\\Mapping"), ("Route", "App\\Route")] }
    (Toml.read? document).bind ofTable? = some read ∧
      ∃ loaded given, ofDocument Sample.registry document = .ok loaded ∧
        withSettings Sample.registry read = .ok given ∧
        ∀ name, given.settings.import? name = loaded.settings.import? name := by
  intro document read
  have hread : (Toml.read? document).bind ofTable? = some read := by decide +kernel
  have hdistinct : (read.imports.map fun entry => Text.lower entry.1).Nodup := by decide
  obtain ⟨loaded, given, -, hloaded, hgiven, -, -, -, -, hagree, hnodup⟩ :=
    installed_agree_iff (p := Parser.new Sample.registry) Sample.registry hread rfl rfl rfl rfl
  exact ⟨hread, loaded, given, hloaded, hgiven, hagree.2 (hnodup hdistinct)⟩

/-- Where two aliases fall together, given settings lead to another class than a document. -/
theorem not_installed_agree :
    ¬ ∀ (document : String) (read : Settings) (loaded given : Parser),
      (Toml.read? document).bind ofTable? = some read →
      ofDocument Sample.registry document = .ok loaded →
      withSettings Sample.registry read = .ok given →
        ∀ name, given.settings.import? name = loaded.settings.import? name := by
  intro h
  have hread : (Toml.read? "imports = \x7b ORM = \"First\", orm = \"Second\" \x7d").bind ofTable? =
      some { imports := [("ORM", "First"), ("orm", "Second")] } := by
    decide +kernel
  have hsame := h _ _ _ _ hread (ofDocument_eq Sample.registry hread rfl)
    (withSettings_of_namespaces_eq_nil Sample.registry rfl) "orm"
  exact absurd hsame (by decide)

end Parser

end Docblock
