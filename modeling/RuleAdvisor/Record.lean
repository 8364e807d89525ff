/-!
Values under distinct text keys, in an order of their own: keys that are written as array indices
come first, by their number, and all others follow in the order in which they were put in. A
repeated key keeps its place and takes the last value. One key is reserved: a number that is put
there is lost, though a record may have been made with it.
-/

namespace RuleAdvisor

structure Record (β : Type) where
  entries : List (String × β)
  distinct : (entries.map Prod.fst).Nodup

namespace Record

variable {β γ : Type}

/-- The number of a key in canonical form, with no sign and no leading zero, up to `2 ^ 32 - 2`. -/
def index? (key : String) : Option Nat :=
  match key.toList with
  | ['0'] => some 0
  | '0' :: _ | [] => none
  | digits =>
      if digits.all Char.isDigit then
        let value := digits.foldl (fun value digit => 10 * value + (digit.toNat - 48)) 0
        if value ≤ 4294967294 then some value else none
      else none

def precedes (present added : String) : Bool :=
  match index? present, index? added with
  | some a, some b => a < b
  | none, some _ => false
  | _, none => true

/-- A number put under this key is lost, and where there is none, something that is no number is
read under it all the same. -/
def reserved : String := "__proto__"

def empty : Record β := ⟨[], List.nodup_nil⟩

def keys (record : Record β) : List String := record.entries.map Prod.fst

def get? (record : Record β) (key : String) : Option β := record.entries.lookup key

def contains (record : Record β) (key : String) : Bool := record.keys.contains key

def map (f : β → γ) (record : Record β) : Record γ where
  entries := record.entries.map fun entry => (entry.1, f entry.2)
  distinct := by
    have keysKept : (record.entries.map fun entry => (entry.1, f entry.2)).map Prod.fst
        = record.entries.map Prod.fst := by simp [List.map_map, Function.comp_def]
    rw [keysKept]
    exact record.distinct

theorem lookup_map (f : β → γ) (key : String) (entries : List (String × β)) :
    (entries.map fun entry => (entry.1, f entry.2)).lookup key
      = (entries.lookup key).map f := by
  induction entries with
  | nil => rfl
  | cons entry rest ih =>
      rcases entry with ⟨head, value⟩
      by_cases same : key = head
      · simp [same]
      · simp [List.lookup_cons, beq_eq_false_iff_ne.mpr same, ih]

theorem isSome_lookup_iff (key : String) (entries : List (String × β)) :
    (entries.lookup key).isSome ↔ key ∈ entries.map Prod.fst := by
  induction entries with
  | nil => simp
  | cons entry rest ih =>
      rcases entry with ⟨head, value⟩
      by_cases same : key = head
      · simp [same]
      · simp only [List.lookup_cons, beq_eq_false_iff_ne.mpr same, List.map_cons, List.mem_cons,
          same, false_or]
        exact ih

theorem isSome_get?_iff (record : Record β) (key : String) :
    (record.get? key).isSome ↔ key ∈ record.keys := isSome_lookup_iff key record.entries

theorem get?_eq_some_iff (record : Record β) (key : String) (value : β) :
    record.get? key = some value ↔ (key, value) ∈ record.entries := by
  obtain ⟨entries, distinct⟩ := record
  simp only [get?]
  induction entries with
  | nil => simp
  | cons entry rest ih =>
      rcases entry with ⟨head, first⟩
      obtain ⟨absent, restDistinct⟩ := List.nodup_cons.mp distinct
      by_cases same : key = head
      · subst head
        have notLater : (key, value) ∉ rest := fun member =>
          absent (List.mem_map.mpr ⟨(key, value), member, rfl⟩)
        simp [notLater, eq_comm]
      · simp [List.lookup_cons, beq_eq_false_iff_ne.mpr same, same, ih restDistinct]

@[simp] theorem keys_map (f : β → γ) (record : Record β) : (record.map f).keys = record.keys := by
  simp [keys, map, List.map_map, Function.comp_def]

@[simp] theorem get?_map (f : β → γ) (record : Record β) (key : String) :
    (record.map f).get? key = (record.get? key).map f := lookup_map f key record.entries

def erase (record : Record β) (key : String) : Record β where
  entries := record.entries.filter fun entry => entry.1 != key
  distinct := (List.filter_sublist.map Prod.fst).nodup record.distinct

theorem lookup_filter (key other : String) (entries : List (String × β)) :
    (entries.filter fun entry => entry.1 != key).lookup other
      = if other = key then none else entries.lookup other := by
  induction entries with
  | nil => simp
  | cons entry rest ih =>
      rcases entry with ⟨head, value⟩
      by_cases dropped : head = key
      · rw [List.filter_cons_of_neg (by simp [dropped]), ih, List.lookup_cons]
        by_cases wanted : other = key
        · simp only [wanted, if_true]
        · have different : other ≠ head := fun same => wanted (same.trans dropped)
          simp only [wanted, if_false, beq_eq_false_iff_ne.mpr different]
      · rw [List.filter_cons_of_pos (by simp [dropped]), List.lookup_cons, List.lookup_cons, ih]
        by_cases here : other = head
        · have kept : other ≠ key := fun same => dropped (here.symm.trans same)
          simp only [here, beq_self_eq_true, dropped, if_false]
        · simp only [beq_eq_false_iff_ne.mpr here]

theorem get?_erase (record : Record β) (key other : String) :
    (record.erase key).get? other = if other = key then none else record.get? other :=
  lookup_filter key other record.entries

theorem keys_erase (record : Record β) (key : String) :
    (record.erase key).keys = record.keys.filter (· != key) := by
  simp only [keys, erase, List.filter_map, Function.comp_def]

def stated (entries : List (String × Option β)) : List (String × β) :=
  entries.filterMap fun entry => entry.2.map fun value => (entry.1, value)

theorem keys_stated_sublist (entries : List (String × Option β)) :
    ((stated entries).map Prod.fst).Sublist (entries.map Prod.fst) := by
  induction entries with
  | nil => exact .slnil
  | cons entry rest ih =>
      rcases entry with ⟨head, value⟩
      cases value with
      | none => simpa [stated] using ih.cons head
      | some value => simpa [stated] using ih.cons_cons head

/-- The keys that hold a value; one that holds none counts as absent. -/
def present (record : Record (Option β)) : Record β :=
  ⟨stated record.entries, (keys_stated_sublist record.entries).nodup record.distinct⟩

def replaced (key : String) (value : β) (entries : List (String × β)) : List (String × β) :=
  entries.map fun entry => if entry.1 = key then (key, value) else entry

theorem keys_replaced (key : String) (value : β) (entries : List (String × β)) :
    (replaced key value entries).map Prod.fst = entries.map Prod.fst := by
  induction entries with
  | nil => rfl
  | cons entry rest ih =>
      by_cases same : entry.1 = key
      · simp_all [replaced]
      · simp_all [replaced]

theorem lookup_replaced (key other : String) (value : β) (entries : List (String × β)) :
    (replaced key value entries).lookup other
      = (entries.lookup other).map fun old => if other = key then value else old := by
  induction entries with
  | nil => rfl
  | cons entry rest ih =>
      rcases entry with ⟨head, old⟩
      have tail : List.lookup other (rest.map fun entry =>
          if entry.1 = key then (key, value) else entry)
          = (rest.lookup other).map fun old => if other = key then value else old := ih
      by_cases same : head = key
      · by_cases wanted : other = key
        · simp [replaced, same, wanted]
        · simp [replaced, same, List.lookup_cons, beq_eq_false_iff_ne.mpr wanted, tail]
      · by_cases here : other = head
        · simp [replaced, same, here]
        · simp [replaced, same, List.lookup_cons, beq_eq_false_iff_ne.mpr here, tail]

def placed (key : String) (value : β) (entries : List (String × β)) : List (String × β) :=
  entries.takeWhile (fun entry => precedes entry.1 key)
    ++ (key, value) :: entries.dropWhile (fun entry => precedes entry.1 key)

theorem keys_placed_perm (key : String) (value : β) (entries : List (String × β)) :
    ((placed key value entries).map Prod.fst).Perm (key :: entries.map Prod.fst) := by
  have moved : (placed key value entries).Perm ((key, value) :: entries) := by
    rw [placed]
    apply List.perm_middle.trans
    rw [List.takeWhile_append_dropWhile]
  simpa using moved.map Prod.fst

theorem lookup_placed (key other : String) (value : β) (entries : List (String × β))
    (absent : key ∉ entries.map Prod.fst) :
    (placed key value entries).lookup other
      = if other = key then some value else entries.lookup other := by
  have split : entries.lookup other
      = ((entries.takeWhile fun entry => precedes entry.1 key)
        ++ entries.dropWhile fun entry => precedes entry.1 key).lookup other := by
    rw [List.takeWhile_append_dropWhile]
  rw [placed, split, List.lookup_append, List.lookup_append, List.lookup_cons]
  by_cases wanted : other = key
  · subst other
    have before : (entries.takeWhile fun entry => precedes entry.1 key).lookup key = none := by
      rw [← Option.not_isSome_iff_eq_none, isSome_lookup_iff]
      exact fun member => absent (((List.takeWhile_sublist _).map Prod.fst).subset member)
    simp [before]
  · simp [wanted, beq_eq_false_iff_ne.mpr wanted]

def insert (record : Record β) (key : String) (value : β) : Record β :=
  if present : key ∈ record.entries.map Prod.fst then
    ⟨replaced key value record.entries, by rw [keys_replaced]; exact record.distinct⟩
  else
    ⟨placed key value record.entries,
      (keys_placed_perm key value record.entries).nodup_iff.mpr
        (List.nodup_cons.mpr ⟨present, record.distinct⟩)⟩

theorem get?_insert (record : Record β) (key other : String) (value : β) :
    (record.insert key value).get? other
      = if other = key then some value else record.get? other := by
  unfold insert get?
  split
  · next present =>
      obtain ⟨old, found⟩ := Option.isSome_iff_exists.mp
        ((isSome_lookup_iff key record.entries).mpr present)
      by_cases wanted : other = key
      · simp [lookup_replaced, wanted, found]
      · simp [lookup_replaced, wanted]
  · next absent => exact lookup_placed key other value record.entries absent

def ofList (entries : List (String × β)) : Record β :=
  entries.foldl (fun record entry => record.insert entry.1 entry.2) empty

end Record
end RuleAdvisor
