import Docblock.Proofs.Grammar.Phrase
import Docblock.Proofs.Token.Scanning
import Mathlib.Algebra.Group.Nat.Defs

/-!
# Values as they are written

Null, booleans, machine integers, strings and arrays of them can be written down. An array that is
a list is written without its keys. What is written denotes the value again, but for the next
implicit index of its arrays.
-/

namespace Docblock

def Key.source : Key → List Char
  | .int index => Decimal.machineText index
  | .text name => Lexeme.quoted name

def Key.IsWritable : Key → Prop
  | .int _ => True
  | .text name => Key.ofString name = .text name

namespace Value

/-- Whether entries are written without keys: they are a list, no longer than indices allow. -/
def isListing (entries : List (Key × Value)) : Bool :=
  OrderedMap.countsFrom 0 entries && decide (entries.length < 2 ^ 63)

mutual

def source : Value → List Char
  | null => ['n', 'u', 'l', 'l']
  | bool true => ['t', 'r', 'u', 'e']
  | bool false => ['f', 'a', 'l', 's', 'e']
  | int n => Decimal.machineText n
  | string s => Lexeme.quoted s
  | array ⟨entries, _⟩ => '{' :: (entriesSource (isListing entries) entries ++ ['}'])
  | float _ => []
  | object _ _ => []

def entriesSource (listing : Bool) : List (Key × Value) → List Char
  | [] => []
  | (key, v) :: rest =>
    (if listing then [] else key.source ++ [':', ' ']) ++ (v.source ++
      (if rest.isEmpty then [] else [',', ' '] ++ entriesSource listing rest))

end

mutual

/-- Values that are written: arrays have distinct keys, and no key is the text of an integer. -/
def IsWritable : Value → Prop
  | null | bool _ | int _ | string _ => True
  | array ⟨entries, _⟩ => (entries.map Prod.fst).Nodup ∧ EntriesWritable entries
  | float _ => False
  | object _ _ => False

def EntriesWritable : List (Key × Value) → Prop
  | [] => True
  | (key, v) :: rest => key.IsWritable ∧ v.IsWritable ∧ EntriesWritable rest

end

mutual

def nesting : Value → Nat
  | array ⟨entries, _⟩ => entriesNesting entries + 1
  | null | bool _ | int _ | float _ | string _ => 0
  | object _ _ => 0

def entriesNesting : List (Key × Value) → Nat
  | [] => 0
  | (_, v) :: rest => max v.nesting (entriesNesting rest)

end

mutual

/-- The value that what is written denotes. -/
def reread : Value → Value
  | array ⟨entries, _⟩ => array (Grammar.collect (rereadEntries (isListing entries) entries))
  | null => null
  | bool b => bool b
  | int n => int n
  | float x => float x
  | string s => string s
  | object className properties => object className properties

def rereadEntries (listing : Bool) : List (Key × Value) → List (Option Key × Value)
  | [] => []
  | (key, v) :: rest => (if listing then none else some key, v.reread) :: rereadEntries listing rest

end

end Value

namespace Value

open OrderedMap

def addAll (m : OrderedMap Value) (entries : List (Option Key × Value)) : OrderedMap Value :=
  entries.foldl (fun m entry => m.addEntry (entry.1, some entry.2)) m

theorem collect_eq_addAll (entries : List (Option Key × Value)) :
    Grammar.collect entries = addAll .empty entries := List.foldl_map

def rereadUnderKeys (entries : List (Key × Value)) : List (Key × Value) :=
  entries.map fun entry => (entry.1, entry.2.reread)

theorem absent_of_nodup {before : List (Key × Value)} {key : Key} {v : Value}
    {rest : List (Key × Value)}
    (h : ((before ++ (key, v) :: rest).map Prod.fst).Nodup) : key ∉ before.map Prod.fst := by
  rw [List.map_append, List.nodup_append] at h
  intro hmem
  exact h.2.2 key hmem key (by simp) rfl

theorem entries_addAll_keyed (m : OrderedMap Value) {entries : List (Key × Value)}
    (h : ((m.entries ++ entries).map Prod.fst).Nodup) :
    (addAll m (rereadEntries false entries)).entries = m.entries ++ rereadUnderKeys entries := by
  induction entries generalizing m with
  | nil => exact (List.append_nil _).symm
  | cons entry rest ih =>
    obtain ⟨key, v⟩ := entry
    have hentries : (m.insert key v.reread).entries = m.entries ++ [(key, v.reread)] := by
      rw [entries_insert, assign_of_absent (absent_of_nodup h)]
    have hnodup : (((m.insert key v.reread).entries ++ rest).map Prod.fst).Nodup := by
      rw [hentries]
      simpa using h
    change (addAll (m.insert key v.reread) (rereadEntries false rest)).entries = _
    rw [ih _ hnodup, hentries, List.append_assoc]
    rfl

theorem indexAfter_ofNat {n : Nat} (hn : n + 1 < 2 ^ 63) :
    indexAfter (Int64.ofNat n) (.int (Int64.ofNat n)) = Int64.ofNat (n + 1) := by
  have hsmall : Int64.ofNat n ≠ Int64.maxValue := by
    intro hmax
    have hvalue := congrArg Int64.toInt hmax
    rw [Int64.toInt_ofNat_of_lt (by omega), Int64.toInt_maxValue] at hvalue
    omega
  have hself : indexAfter (Int64.ofNat n) (.int (Int64.ofNat n)) = successor (Int64.ofNat n) :=
    if_pos (Int64.le_refl _)
  rw [hself, successor, if_neg hsmall, Int64.ofNat_add]
  rfl

theorem entries_addAll_listing (m : OrderedMap Value) {n : Nat} {entries : List (Key × Value)}
    (h : ((m.entries ++ entries).map Prod.fst).Nodup) (hindex : m.nextIndex = Int64.ofNat n)
    (hcounts : countsFrom n entries = true) (hlength : n + entries.length < 2 ^ 63) :
    (addAll m (rereadEntries true entries)).entries = m.entries ++ rereadUnderKeys entries := by
  induction entries generalizing m n with
  | nil => exact (List.append_nil _).symm
  | cons entry rest ih =>
    obtain ⟨key, v⟩ := entry
    rw [countsFrom, Bool.and_eq_true, beq_iff_eq] at hcounts
    obtain ⟨rfl, hrest⟩ : key = .int (Int64.ofNat n) ∧ countsFrom (n + 1) rest = true := hcounts
    rw [List.length_cons] at hlength
    have hpush : m.push v.reread = m.insert (.int (Int64.ofNat n)) v.reread := by
      rw [push, hindex]
    have hentries : (m.push v.reread).entries =
        m.entries ++ [(.int (Int64.ofNat n), v.reread)] := by
      rw [hpush, entries_insert, assign_of_absent (absent_of_nodup h)]
    have hnext : (m.push v.reread).nextIndex = Int64.ofNat (n + 1) := by
      rw [hpush, nextIndex_insert, hindex, indexAfter_ofNat (by omega)]
    have hnodup : (((m.push v.reread).entries ++ rest).map Prod.fst).Nodup := by
      rw [hentries]
      simpa using h
    change (addAll (m.push v.reread) (rereadEntries true rest)).entries = _
    rw [ih _ hnodup hnext hrest (by omega), hentries, List.append_assoc]
    rfl

/-- What an array is reread as has its keys in the same order. -/
theorem entries_collect {entries : List (Key × Value)} (h : (entries.map Prod.fst).Nodup) :
    (Grammar.collect (rereadEntries (isListing entries) entries)).entries =
      rereadUnderKeys entries := by
  rw [collect_eq_addAll]
  cases hlisting : isListing entries with
  | false => exact entries_addAll_keyed .empty h
  | true =>
    unfold isListing at hlisting
    rw [Bool.and_eq_true, decide_eq_true_eq] at hlisting
    exact entries_addAll_listing .empty h rfl hlisting.1 (by rw [Nat.zero_add]; exact hlisting.2)

mutual

/-- A value is equal to what it is reread as. -/
theorem reread_beq : (v : Value) → v.IsWritable → (v.reread.beq v) = true
  | null, _ => rfl
  | bool b, _ => by cases b <;> rfl
  | int n, _ => by
    unfold reread beq
    exact BEq.rfl
  | string s, _ => by
    unfold reread beq
    exact BEq.rfl
  | array ⟨entries, next⟩, h => by
    unfold IsWritable at h
    have hentries := entries_collect h.1
    have hequal := rereadEntries_beq entries h.2
    unfold reread
    cases hcollect : Grammar.collect (rereadEntries (isListing entries) entries) with
    | mk found index =>
      rw [hcollect] at hentries
      obtain rfl : found = rereadUnderKeys entries := hentries
      unfold beq
      exact hequal
  | float _, h => by
    unfold IsWritable at h
    exact h.elim
  | object _ _, h => by
    unfold IsWritable at h
    exact h.elim

theorem rereadEntries_beq : (entries : List (Key × Value)) → EntriesWritable entries →
    beqEntries (rereadUnderKeys entries) entries = true
  | [], _ => by
    unfold rereadUnderKeys beqEntries
    rfl
  | (key, v) :: rest, h => by
    unfold EntriesWritable at h
    have hv := reread_beq v h.2.1
    have hrest := rereadEntries_beq rest h.2.2
    unfold rereadUnderKeys at hrest ⊢
    rw [List.map_cons]
    unfold beqEntries
    rw [hv, hrest]
    simp

end

end Value

end Docblock
