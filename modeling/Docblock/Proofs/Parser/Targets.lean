import Docblock.Proofs.Object.Inside
import Docblock.Proofs.Parser.Described

/-!
# Targets of parsed annotations

The annotations of a text stand on the target of the settings, and those inside them stand on
annotations. The schemas of their classes allow it, however deep they lie and whatever else was
read in between. The empty target of the settings allows everything at the top, and nothing else
inside.
-/

namespace Docblock

namespace Parser

variable {registry : Registry} {names : List String} {p : Parser}

def Allows (p : Parser) (target : Target) (a : Annotation) : Prop :=
  ∃ s, p.Describes a.className s ∧ s.target.intersects target = true

theorem Faithful.describes_of_madeOn (h : p.Faithful registry names) (hregistry : registry.IsInert)
    {good : Annotation → Prop} {target : Target} {a : Annotation}
    (hmade : MadeOn registry p.Describes target (Value.HoldsOnly good) a) :
    (∃ s, p.Describes a.className s ∧
      (target.isEmpty = true ∨ s.target.intersects target = true)) ∧
        a.properties.All (Value.HoldsOnly good) := by
  obtain ⟨hbare, hs, htarget, hgiven, hobject⟩ := hmade
  have hname := h.name_of_describes hbare hs
  obtain ⟨hclass, hall⟩ := hregistry.all_objectOf (by rw [hname, hbare]) hgiven hobject
  refine ⟨⟨_, ?_, htarget⟩, hall⟩
  rw [hclass, hname]
  exact hs

/-- Annotations inside others may stand on annotations. -/
theorem Faithful.holdsOnly_of_madeOn (h : p.Faithful registry names) (hregistry : registry.IsInert)
    {a : Annotation}
    (hmade : MadeOn registry p.Describes .nested (Value.HoldsOnly (p.Allows .nested)) a) :
    (Value.object a.className a.properties).HoldsOnly (p.Allows .nested) := by
  obtain ⟨⟨s, hs, htarget⟩, hall⟩ := h.describes_of_madeOn hregistry hmade
  have hnested : s.target.intersects .nested = true := htarget.resolve_left (by decide)
  exact Value.holdsOnly_object ⟨s, hs, hnested⟩ hall

/-- The class of every annotation of a text may stand on the target of the settings, unless that is
empty, and the class of every annotation inside may stand on annotations. -/
theorem targets_of_parse (hreachable : Reachable registry p) (hregistry : registry.IsInert)
    {input context : String} {as : List Annotation} (h : (p.parse input context).1 = .ok as) :
    ∀ a ∈ as, (∃ s, p.Describes a.className s ∧
        (p.settings.target.isEmpty = true ∨ s.target.intersects p.settings.target = true)) ∧
      ∀ b : Annotation, b.InsideOf a.properties → p.Allows .nested b := by
  obtain ⟨names, hfaithful⟩ := hreachable.faithful
  rw [hfaithful.parse_eq] at h
  have hrun : (readDoc (scratchScope registry names p.settings context) p.settings.target
      input).result .initial = (.ok as, _) := Prod.ext h rfl
  have hrule : ValueRule registry (Value.HoldsOnly (p.Allows .nested)) := hregistry.valueRule
  have hmade := madeOn_of_readDoc (fun _ _ hbare => hfaithful.describes_of_returns hbare) hrun hrule
    fun a => hfaithful.holdsOnly_of_madeOn hregistry
  intro a ha
  obtain ⟨hdescribed, hall⟩ := hfaithful.describes_of_madeOn hregistry (hmade a ha)
  refine ⟨hdescribed, ?_⟩
  rintro b ⟨e, he, hb⟩
  exact hall e he b hb

def onClassParser : Parser := (Parser.new .standard).change (.setTarget .onClass)

def attributeSource : String :=
  "@\\Quill\\Annotation\\Attributes(\x7b" ++
    "@\\Quill\\Annotation\\Attribute(name = \"a\", type = \"int\")\x7d)"

def hasListed (a : Annotation) : Bool :=
  a.properties.entries.any fun e => (e.2.array?.getD .empty).entries.any fun f => f.2.object?.isSome

theorem targets_attribute : ∃ as, (onClassParser.parse attributeSource).1 = .ok as ∧
    as.any hasListed = true ∧
    ∀ a ∈ as, (∃ s, onClassParser.Describes a.className s ∧
        (onClassParser.settings.target.isEmpty = true ∨
          s.target.intersects onClassParser.settings.target = true)) ∧
      ∀ b : Annotation, b.InsideOf a.properties → onClassParser.Allows .nested b := by
  have hsome : (onClassParser.parse attributeSource).1.toOption.map (fun as => as.any hasListed) =
      some true := by
    decide +kernel
  obtain ⟨as, hparse, has⟩ := Except.exists_ok_of_map hsome
  exact ⟨as, hparse, has, targets_of_parse (.change _ .new) Registry.inert_standard hparse⟩

end Parser

end Docblock
