import Aseman.Lib.Checked
import Mathlib.Data.List.Sort

/-!
# JSON values

The values of `serde_json`, its objects as the ordered maps they are there (`Map` is a `BTreeMap`:
members in key order, one per key), and the accessors a program reads documents with. A number is
an integer, or a number that is not one; of the latter the model keeps what a program can observe,
its printed form and the value `as i64` truncates it to.
-/

namespace Aseman.Json

inductive Number where
  | int (n : Int)
  | float (text : String) (truncated : Int64)
  deriving DecidableEq, Inhabited

inductive Value where
  | null
  | bool (b : Bool)
  | number (n : Number)
  | string (s : String)
  | array (items : List Value)
  | object (members : List (String × Value))
  deriving Inhabited

open Value

/-- An object's members, in key order. -/
abbrev Map := List (String × Value)

/-! ## Equality -/

mutual
/-- Structural equality; objects hold their members in key order, so it is equality of maps. -/
def Value.beq : Value → Value → Bool
  | .null, .null => true
  | .bool a, .bool b => a == b
  | .number a, .number b => decide (a = b)
  | .string a, .string b => decide (a = b)
  | .array a, .array b => beqItems a b
  | .object a, .object b => beqMembers a b
  | _, _ => false

def Value.beqItems : List Value → List Value → Bool
  | [], [] => true
  | a :: as, b :: bs => a.beq b && beqItems as bs
  | _, _ => false

def Value.beqMembers : List (String × Value) → List (String × Value) → Bool
  | [], [] => true
  | (k, a) :: as, (l, b) :: bs => decide (k = l) && (a.beq b && beqMembers as bs)
  | _, _ => false
end

mutual
theorem Value.beq_iff : ∀ a b : Value, a.beq b = true ↔ a = b
  | .null, b => by cases b <;> simp [beq]
  | .bool _, b => by cases b <;> simp [beq]
  | .number _, b => by cases b <;> simp [beq]
  | .string _, b => by cases b <;> simp [beq]
  | .array a, b => by
      cases b with
      | array b => simpa [beq] using beqItems_iff a b
      | _ => simp [beq]
  | .object a, b => by
      cases b with
      | object b => simpa [beq] using beqMembers_iff a b
      | _ => simp [beq]

theorem Value.beqItems_iff : ∀ a b : List Value, beqItems a b = true ↔ a = b
  | [], b => by cases b <;> simp [beqItems]
  | x :: a, [] => by simp [beqItems]
  | x :: a, y :: b => by
      have h₁ := beq_iff x y
      have h₂ := beqItems_iff a b
      simp [beqItems, h₁, h₂]

theorem Value.beqMembers_iff : ∀ a b : List (String × Value), beqMembers a b = true ↔ a = b
  | [], b => by cases b <;> simp [beqMembers]
  | x :: a, [] => by simp [beqMembers]
  | (k, x) :: a, (l, y) :: b => by
      have h₁ := beq_iff x y
      have h₂ := beqMembers_iff a b
      simp [beqMembers, h₁, h₂, and_assoc]
end

instance : DecidableEq Value := fun a b => decidable_of_iff _ (beq_iff a b)

/-! ## Objects -/

variable (m : Map) {l : List (String × Value)} (k : String)

namespace Map

/-- The member at a key. -/
def get : Option Value := List.lookup k m

/-- Remove the member at a key. -/
def remove : Map := m.filter fun e => e.1 ≠ k

/-- Write the member at a key, keeping the members in key order. -/
def insert (v : Value) : Map := List.orderedInsert (fun a b => a.1 ≤ b.1) (k, v) (m.remove k)

/-- The object with the given members; a later one wins over an earlier one of the same key. -/
def ofList (l : List (String × Value)) : Map := l.foldl (fun m e => m.insert e.1 e.2) []

theorem get_remove (k k' : String) : (m.remove k).get k' = if k' = k then none else m.get k' := by
  induction m with
  | nil => simp [remove, get]
  | cons e m ih =>
    obtain ⟨l, v⟩ := e
    simp only [remove, get, List.filter_cons, List.lookup_cons, decide_not] at ih ⊢
    by_cases hl : l = k
    · subst hl
      by_cases hk : k' = l
      · simp [hk] at ih ⊢; exact ih
      · simp [hk, beq_eq_false_iff_ne.mpr hk] at ih ⊢; exact ih
    · by_cases hk : k' = l
      · subst hk
        simp [hl]
      · simp [hl, List.lookup_cons, beq_eq_false_iff_ne.mpr hk, ih]

theorem get_orderedInsert (k k' : String) (v : Value) (h : m.get k = none) :
    Map.get (List.orderedInsert (fun a b => a.1 ≤ b.1) (k, v) m) k' =
      if k' = k then some v else m.get k' := by
  induction m with
  | nil =>
    by_cases hk : k' = k
    · simp [get, hk]
    · simp [get, List.lookup_cons, hk, beq_eq_false_iff_ne.mpr hk]
  | cons e m ih =>
    obtain ⟨l, w⟩ := e
    have hkl : k ≠ l := by
      rintro rfl
      simp [get] at h
    have hm : Map.get m k = none := by
      simpa [get, List.lookup_cons, beq_eq_false_iff_ne.mpr hkl] using h
    rw [List.orderedInsert_cons]
    split
    · by_cases hk : k' = k
      · simp [get, hk]
      · simp [get, List.lookup_cons, hk, beq_eq_false_iff_ne.mpr hk]
    · have ih' := ih hm
      simp only [get] at ih' ⊢
      by_cases hk : k' = l
      · subst hk
        simp [Ne.symm hkl]
      · simp [List.lookup_cons, beq_eq_false_iff_ne.mpr hk, ih']

/-- **Reading back** a written member. -/
theorem get_insert (k k' : String) (v : Value) :
    (m.insert k v).get k' = if k' = k then some v else m.get k' := by
  rw [insert, get_orderedInsert _ _ _ _ (by simp [get_remove]), get_remove]
  split <;> simp_all

/-- The object with the fields that are present. -/
def ofFields (l : List (String × Option Value)) : Map :=
  l.foldr (fun e m => e.2.elim m fun v => m.insert e.1 v) []

@[simp] theorem get_ofFields_nil : (ofFields []).get k = none := rfl

@[simp] theorem get_ofFields_cons (k k' : String) (v : Option Value)
    (l : List (String × Option Value)) :
    (ofFields ((k', v) :: l)).get k =
      if k = k' then v.or ((ofFields l).get k) else (ofFields l).get k := by
  cases v with
  | none => simp [ofFields]
  | some v => exact get_insert _ _ _ _

theorem insert_perm {m : Map} {k : String} (h : k ∉ m.map Prod.fst) (v : Value) :
    (m.insert k v).Perm ((k, v) :: m) := by
  have hremove : m.remove k = m := by
    apply List.filter_eq_self.mpr
    intro e he
    simp only [ne_eq, decide_eq_true_eq]
    rintro rfl
    exact h (List.mem_map_of_mem he)
  rw [insert, hremove]
  exact List.perm_orderedInsert _ _ _

/-- An object built from members with distinct keys has exactly those members. -/
theorem ofList_perm (h : (l.map Prod.fst).Nodup) : (ofList l).Perm l := by
  -- the members still to come are new to the object built so far
  suffices ∀ m : Map, (l.map Prod.fst).Nodup → (∀ k ∈ l.map Prod.fst, k ∉ m.map Prod.fst) →
      (l.foldl (fun m e => m.insert e.1 e.2) m).Perm (m ++ l) from
    (this [] h (by simp)).trans (by simp)
  clear h
  induction l with
  | nil => simp
  | cons e l ih =>
    intro m hnodup hnew
    simp only [List.map_cons, List.nodup_cons, List.mem_cons, forall_eq_or_imp] at hnodup hnew
    have hperm := insert_perm hnew.1 e.2
    refine (ih _ hnodup.2 fun k hk hmem => ?_).trans ?_
    · rcases List.mem_cons.mp ((hperm.map Prod.fst).subset hmem) with rfl | hmem
      · exact hnodup.1 hk
      · exact hnew.2 k hk hmem
    · exact (hperm.append_right l).trans List.perm_middle.symm

end Map

/-! ## Merging -/

mutual
/-- The value that `incoming` leaves over an existing one: objects merge, anything else replaces. -/
def mergeValue (existing : Option Value) : Value → Value
  | .object incoming =>
    match existing with
    | some (.object members) => .object (mergeObjects members incoming)
    | _ => .object incoming
  | incoming => incoming

/-- `merge_objects`: the source's members one by one, over those of the target. -/
def mergeObjects (target : List (String × Value)) : List (String × Value) → List (String × Value)
  | [] => target
  | (member, value) :: source =>
    mergeObjects (Map.insert target member (mergeValue (Map.get target member) value)) source
end

/-- Anything but an object replaces what was there. -/
theorem mergeValue_of_not_object {existing incoming} (h : ∀ members, incoming ≠ .object members) :
    mergeValue existing incoming = incoming := by
  cases incoming with
  | object members => exact absurd rfl (h members)
  | _ => rfl

theorem get_mergeObjects_of_notMem {source k} (h : k ∉ source.map Prod.fst) (target : Map) :
    Map.get (mergeObjects target source) k = target.get k := by
  induction source generalizing target with
  | nil => rfl
  | cons e source ih =>
    simp only [List.map_cons, List.mem_cons, not_or] at h
    rw [mergeObjects, ih h.2, Map.get_insert, if_neg h.1]

/-- **Reading back** a member that the source has once. -/
theorem get_mergeObjects {source : Map} (hsource : (source.map Prod.fst).Nodup) (k : String)
    {value : Value} (h : source.get k = some value) (target : Map) :
    Map.get (mergeObjects target source) k = some (mergeValue (target.get k) value) := by
  induction source generalizing target with
  | nil => simp [Map.get] at h
  | cons e source ih =>
    obtain ⟨member, value'⟩ := e
    simp only [List.map_cons, List.nodup_cons] at hsource
    by_cases hk : k = member
    · subst hk
      simp only [Map.get, List.lookup_cons_self, Option.some.injEq] at h
      subst h
      rw [mergeObjects, get_mergeObjects_of_notMem hsource.1, Map.get_insert, if_pos rfl]
    · have hget : Map.get source k = some value := by
        simpa [Map.get, List.lookup_cons, beq_eq_false_iff_ne.mpr hk] using h
      rw [mergeObjects, ih hsource.2 hget, Map.get_insert, if_neg hk]

namespace Map

theorem nodup_remove {m : Map} (h : (m.map Prod.fst).Nodup) (k : String) :
    ((m.remove k).map Prod.fst).Nodup :=
  h.sublist (List.filter_sublist.map Prod.fst)

theorem notMem_remove : k ∉ (m.remove k).map Prod.fst := by
  simp [remove]

theorem nodup_insert {m : Map} (h : (m.map Prod.fst).Nodup) (k : String) (v : Value) :
    ((m.insert k v).map Prod.fst).Nodup := by
  have hperm : (m.insert k v).Perm ((k, v) :: m.remove k) := List.perm_orderedInsert _ _ _
  rw [(hperm.map Prod.fst).nodup_iff, List.map_cons, List.nodup_cons]
  exact ⟨notMem_remove m k, nodup_remove h k⟩

theorem nodup_ofList (l : List (String × Value)) : ((ofList l).map Prod.fst).Nodup := by
  suffices ∀ m : Map, (m.map Prod.fst).Nodup →
      ((l.foldl (fun m e => m.insert e.1 e.2) m).map Prod.fst).Nodup from this [] (by simp)
  induction l with
  | nil => exact fun _ hm => hm
  | cons e l ih => exact fun m hm => ih _ (nodup_insert hm e.1 e.2)

end Map

theorem nodup_mergeObjects {target : Map} (h : (target.map Prod.fst).Nodup) (source : Map) :
    ((mergeObjects target source).map Prod.fst).Nodup := by
  induction source generalizing target with
  | nil => exact h
  | cons e source ih => exact ih (Map.nodup_insert h e.1 _)

/-! ## Accessors -/

namespace Value

def asStr : Value → Option String
  | .string s => some s
  | _ => none

def asArray : Value → Option (List Value)
  | .array l => some l
  | _ => none

def asObject : Value → Option Map
  | .object m => some m
  | _ => none

def asBool : Value → Option Bool
  | .bool b => some b
  | _ => none

/-- `Value::as_i64`: an integer that fits. -/
def asI64 : Value → Option Int64
  | .number (.int n) => if -2 ^ 63 ≤ n ∧ n < 2 ^ 63 then some (Int64.ofInt n) else none
  | _ => none

/-- `Value::get`: a member of an object. -/
def get (v : Value) (k : String) : Option Value := v.asObject.bind (Map.get · k)

def ofI64 (n : Int64) : Value := .number (.int n.toInt)

@[simp] theorem asI64_ofI64 (n : Int64) : (ofI64 n).asI64 = some n := by
  have h₁ := n.le_toInt
  have h₂ := n.toInt_lt
  simp only [ofI64, asI64, Int64.ofInt_toInt, if_pos (And.intro h₁ h₂)]

end Value

/-! ## Printing -/

/-- A character inside a string, as the compact printer escapes it. -/
def escape (c : Char) : String :=
  if c = '"' then "\\\""
  else if c = '\\' then "\\\\"
  else if c = '\x08' then "\\b"
  else if c = '\x0c' then "\\f"
  else if c = '\n' then "\\n"
  else if c = '\r' then "\\r"
  else if c = '\t' then "\\t"
  else if c.toNat < 0x20 then
    "\\u00" ++ String.ofList [Nat.digitChar (c.toNat / 16), Nat.digitChar (c.toNat % 16)]
  else String.ofList [c]

def quote (s : String) : String := "\"" ++ String.join (s.toList.map escape) ++ "\""

mutual
/-- `serde_json::to_string`: the compact form. -/
def Value.print : Value → String
  | .null => "null"
  | .bool b => if b then "true" else "false"
  | .number (.int n) => toString n
  | .number (.float text _) => text
  | .string s => quote s
  | .array l => "[" ++ printItems l ++ "]"
  | .object m => "\x7b" ++ printMembers m ++ "\x7d"

def Value.printItems : List Value → String
  | [] => ""
  | [v] => v.print
  | v :: w :: l => v.print ++ "," ++ printItems (w :: l)

def Value.printMembers : List (String × Value) → String
  | [] => ""
  | [(k, v)] => quote k ++ ":" ++ v.print
  | (k, v) :: e :: l => quote k ++ ":" ++ v.print ++ "," ++ printMembers (e :: l)
end

end Aseman.Json
