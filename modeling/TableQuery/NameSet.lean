/-! # Sets of names

A set of names is kept as its list in ascending code point order, so that equal sets are equal lists
and the order in which names are shown belongs to the type. -/

namespace TableQuery

structure NameSet where
  toList : List String
  sorted : toList.Pairwise (· < ·)
deriving DecidableEq

namespace NameSet

/-- Puts `a` at its place in an ascending list that may hold it already. -/
def place (a : String) : List String → List String
  | [] => [a]
  | b :: rest => if a < b then a :: b :: rest else if a = b then b :: rest else b :: place a rest

theorem mem_place {a x : String} {l : List String} : x ∈ place a l ↔ x = a ∨ x ∈ l := by
  induction l with
  | nil => simp [place]
  | cons b rest ih =>
    simp only [place]
    split
    · simp
    · split
      · rename_i h; subst h; simp
      · simp only [List.mem_cons, ih]; grind

theorem pairwise_place (a : String) {l : List String} (h : l.Pairwise (· < ·)) :
    (place a l).Pairwise (· < ·) := by
  induction l with
  | nil => simp [place]
  | cons b rest ih =>
    have hb := List.pairwise_cons.mp h
    simp only [place]
    split
    · rename_i hab
      refine List.pairwise_cons.mpr ⟨fun x hx => ?_, h⟩
      rcases List.mem_cons.mp hx with rfl | hx
      · exact hab
      · exact String.lt_trans hab (hb.1 x hx)
    · split
      · exact h
      · rename_i hab hne
        refine List.pairwise_cons.mpr ⟨fun x hx => ?_, ih hb.2⟩
        rcases mem_place.mp hx with rfl | hx
        · exact String.not_le.mp fun hle =>
            hne (String.le_antisymm hle (String.not_lt.mp hab))
        · exact hb.1 x hx

def empty : NameSet := ⟨[], .nil⟩

def insert (s : NameSet) (a : String) : NameSet := ⟨place a s.toList, pairwise_place a s.sorted⟩

def ofList (names : List String) : NameSet := names.foldl insert empty

def contains (s : NameSet) (a : String) : Bool := s.toList.contains a

def size (s : NameSet) : Nat := s.toList.length

/-- The least name of `s` that is not in `t`. -/
def firstOutside? (s t : NameSet) : Option String := s.toList.find? fun a => !t.contains a

instance : Membership String NameSet := ⟨fun s a => a ∈ s.toList⟩

theorem mem_def {s : NameSet} {a : String} : a ∈ s ↔ a ∈ s.toList := Iff.rfl

@[simp] theorem mem_insert {s : NameSet} {a x : String} : x ∈ s.insert a ↔ x = a ∨ x ∈ s := mem_place

@[simp] theorem not_mem_empty {a : String} : a ∉ empty := by simp [mem_def, empty]

@[simp] theorem mem_ofList {names : List String} {a : String} : a ∈ ofList names ↔ a ∈ names := by
  suffices h : ∀ s : NameSet, a ∈ names.foldl insert s ↔ a ∈ names ∨ a ∈ s by simp [ofList, h]
  induction names with
  | nil => simp
  | cons b rest ih => intro s; simp only [List.foldl, ih, mem_insert, List.mem_cons]; grind

@[simp] theorem contains_iff {s : NameSet} {a : String} : s.contains a = true ↔ a ∈ s := by
  simp [contains, mem_def]

end NameSet

end TableQuery
