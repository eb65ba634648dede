import Liaison.Decimal.Binary64
import Liaison.Table

/-!
# JSON values

Numbers are integers or doubles, and an object keeps its members in ascending order of their
names, one member a name. Names are compared by code points, which is the order of their UTF-8
bytes.
-/

namespace Liaison

inductive Json where
  | null
  | bool (b : Bool)
  | int (n : Int)
  | float (x : Binary64)
  | str (s : String)
  | arr (items : List Json)
  | obj (members : List (String × Json))
deriving Inhabited

namespace Json

/-! ## Equality -/

mutual

def same : Json → Json → Bool
  | null, null => true
  | bool a, bool b => a == b
  | int a, int b => a == b
  | float a, float b => a == b
  | str a, str b => a == b
  | arr a, arr b => sameItems a b
  | obj a, obj b => sameMembers a b
  | _, _ => false

def sameItems : List Json → List Json → Bool
  | [], [] => true
  | a :: as, b :: bs => same a b && sameItems as bs
  | _, _ => false

def sameMembers : List (String × Json) → List (String × Json) → Bool
  | [], [] => true
  | (k, a) :: as, (l, b) :: bs => k == l && same a b && sameMembers as bs
  | _, _ => false

end

mutual

theorem eq_of_same : ∀ {a b : Json}, same a b = true → a = b
  | null, b, h => by cases b <;> simp_all [same]
  | bool _, b, h => by cases b <;> simp_all [same]
  | int _, b, h => by cases b <;> simp_all [same]
  | float _, b, h => by cases b <;> simp_all [same]
  | str _, b, h => by cases b <;> simp_all [same]
  | arr as, b, h => by
    cases b <;> simp only [same, Bool.false_eq_true] at h
    rw [eq_of_sameItems h]
  | obj as, b, h => by
    cases b <;> simp only [same, Bool.false_eq_true] at h
    rw [eq_of_sameMembers h]

theorem eq_of_sameItems : ∀ {as bs : List Json}, sameItems as bs = true → as = bs
  | [], [], _ => rfl
  | [], _ :: _, h => by simp [sameItems] at h
  | _ :: _, [], h => by simp [sameItems] at h
  | a :: as, b :: bs, h => by
    simp only [sameItems, Bool.and_eq_true] at h
    rw [eq_of_same h.1, eq_of_sameItems h.2]

theorem eq_of_sameMembers :
    ∀ {as bs : List (String × Json)}, sameMembers as bs = true → as = bs
  | [], [], _ => rfl
  | [], _ :: _, h => by simp [sameMembers] at h
  | _ :: _, [], h => by simp [sameMembers] at h
  | (k, a) :: as, (l, b) :: bs, h => by
    simp only [sameMembers, Bool.and_eq_true, beq_iff_eq] at h
    rw [h.1.1, eq_of_same h.1.2, eq_of_sameMembers h.2]

end

mutual

theorem same_self : ∀ a : Json, same a a = true
  | null => rfl
  | bool _ => by simp [same]
  | int _ => by simp [same]
  | float _ => by simp [same]
  | str _ => by simp [same]
  | arr as => by simp [same, sameItems_self as]
  | obj as => by simp [same, sameMembers_self as]

theorem sameItems_self : ∀ as : List Json, sameItems as as = true
  | [] => rfl
  | a :: as => by simp [sameItems, same_self a, sameItems_self as]

theorem sameMembers_self : ∀ as : List (String × Json), sameMembers as as = true
  | [] => rfl
  | (_, a) :: as => by simp [sameMembers, same_self a, sameMembers_self as]

end

instance : DecidableEq Json := fun a b =>
  if h : same a b = true then isTrue (eq_of_same h)
  else isFalse fun e => h (e ▸ same_self a)

/-! ## Members -/

/-- The object with the given members. The last of two members of one name wins. -/
def ofMembers (members : List (String × Json)) : Json :=
  .obj (Table.ofList members)

def member? (name : String) : Json → Option Json
  | .obj members => Table.get? name members
  | _ => none

/-- The object with a member set; any other value is left as it is. -/
def set (v : Json) (name : String) (value : Json) : Json :=
  match v with
  | .obj members => .obj (Table.insert name value members)
  | other => other

def str? : Json → Option String
  | .str s => some s
  | _ => none

def ofNat (n : Nat) : Json :=
  .int n

def ofOption : Option Json → Json
  | some v => v
  | none => .null

/-! ## Normal values -/

mutual

/-- Every object within has its members in strictly ascending order of their names. -/
def Normal : Json → Prop
  | .arr items => NormalItems items
  | .obj members => (members.map (·.1)).Pairwise (· < ·) ∧ NormalMembers members
  | _ => True

def NormalItems : List Json → Prop
  | [] => True
  | v :: rest => Normal v ∧ NormalItems rest

def NormalMembers : List (String × Json) → Prop
  | [] => True
  | (_, v) :: rest => Normal v ∧ NormalMembers rest

end

mutual

def depth : Json → Nat
  | .arr items => depthItems items + 1
  | .obj members => depthMembers members + 1
  | _ => 0

def depthItems : List Json → Nat
  | [] => 0
  | v :: rest => max (depth v) (depthItems rest)

def depthMembers : List (String × Json) → Nat
  | [] => 0
  | (_, v) :: rest => max (depth v) (depthMembers rest)

end

end Json

end Liaison
