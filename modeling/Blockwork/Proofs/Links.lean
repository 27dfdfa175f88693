import Blockwork.Block.Graph
import Mathlib

set_option autoImplicit false

namespace Blockwork

mutual

def Payload.same : Payload → Payload → Bool
  | .none, .none => true
  | .number v, .number w => v = w
  | .text s, .text t => s = t
  | .truth a, .truth b => a = b
  | .list ps, .list qs => Payload.sameAll ps qs
  | _, _ => false

def Payload.sameAll : List Payload → List Payload → Bool
  | [], [] => true
  | p :: ps, q :: qs => p.same q && Payload.sameAll ps qs
  | _, _ => false

end

mutual

theorem Payload.same_iff (p q : Payload) : p.same q = true ↔ p = q := by
  match p with
  | .none | .number _ | .text _ | .truth _ => cases q <;> simp [Payload.same]
  | .list ps =>
    cases q with
    | list qs => rw [Payload.same, Payload.same_all_iff ps qs, Payload.list.injEq]
    | _ => simp [Payload.same]

theorem Payload.same_all_iff (ps qs : List Payload) : Payload.sameAll ps qs = true ↔ ps = qs := by
  match ps, qs with
  | [], [] => simp [Payload.sameAll]
  | [], _ :: _ => simp [Payload.sameAll]
  | _ :: _, [] => simp [Payload.sameAll]
  | p :: ps, q :: qs =>
    rw [Payload.sameAll, Bool.and_eq_true, Payload.same_iff p q, Payload.same_all_iff ps qs, List.cons.injEq]

end

instance : DecidableEq Payload := fun p q => decidable_of_iff (p.same q = true) (p.same_iff q)

deriving instance DecidableEq for Block
deriving instance DecidableEq for Graph

instance decidableEqExcept {ε α : Type} [DecidableEq ε] [DecidableEq α] : DecidableEq (Except ε α)
  | .error e, .error f => decidable_of_iff (e = f) (by simp)
  | .ok a, .ok b => decidable_of_iff (a = b) (by simp)
  | .error _, .ok _ => isFalse (by simp)
  | .ok _, .error _ => isFalse (by simp)

inductive Exit where
  | next
  | body
  | otherwise
deriving DecidableEq

structure Links where
  id : Nat
  kind : Kind
  parent : Nat
  next : Nat
  body : Nat
  otherwise : Nat
deriving DecidableEq

def Links.exit (l : Links) : Exit → Nat
  | .next => l.next
  | .body => l.body
  | .otherwise => l.otherwise

def Block.exit (b : Block) : Exit → Nat
  | .next => b.next
  | .body => b.body
  | .otherwise => b.otherwise

def Block.links (b : Block) : Links := ⟨b.id, b.kind, b.parent, b.next, b.body, b.otherwise⟩

@[simp] theorem Block.links_exit (b : Block) (x : Exit) : b.links.exit x = b.exit x := by cases x <;> rfl

namespace Graph

def links? (g : Graph) (id : Nat) : Option Links := (g.block? id).map Block.links

variable (g : Graph)

@[simp] theorem links_zero : g.links? 0 = none := rfl

theorem links_defined (id : Nat) : (∃ l, g.links? id = some l) ↔ 1 ≤ id ∧ id ≤ g.size := by
  unfold links? block? size
  by_cases zero : id = 0
  · simp [zero]
  · simp only [zero, if_false, Option.map_eq_some_iff]
    constructor
    · rintro ⟨l, b, found, rfl⟩
      obtain ⟨bound, _⟩ := Array.getElem?_eq_some_iff.mp found
      omega
    · rintro ⟨-, bound⟩
      have inside : id - 1 < g.blocks.size := by omega
      exact ⟨_, _, Array.getElem?_eq_getElem inside, rfl⟩

@[simp] theorem size_modify (id : Nat) (f : Block → Block) : (g.modify id f).size = g.size := by
  unfold modify size
  split_ifs <;> simp

theorem block_modify (id other : Nat) (f : Block → Block) :
    (g.modify id f).block? other = if id = other then (g.block? other).map f else g.block? other := by
  unfold modify block?
  by_cases zero : id = 0
  · subst zero
    by_cases none : other = 0
    · simp [none]
    · simp [none, Ne.symm none]
  · by_cases none : other = 0
    · simp [none, zero]
    · simp only [zero, none, if_false, Array.getElem?_modify]
      by_cases same : id = other
      · simp [same]
      · have apart : id - 1 ≠ other - 1 := by omega
        simp [same, apart]

-- Every statement knows where it hangs: what an exit leads to has the source as its parent, no two exits of a
-- block lead to the same statement, and only the start of the program is made after what follows it.
structure Linked (g : Graph) : Prop where
  numbered : ∀ id l, g.links? id = some l → l.id = id
  back : ∀ id l x, g.links? id = some l → l.exit x ≠ 0 →
    ∃ t, g.links? (l.exit x) = some t ∧ t.parent = id ∧ t.kind.isTop = false
  apart : ∀ id l x y, g.links? id = some l → l.exit x ≠ 0 → l.exit x = l.exit y → x = y
  later : ∀ id l x, g.links? id = some l → l.exit x ≠ 0 → l.kind = .start ∨ id < l.exit x

structure Rooted (g : Graph) : Prop where
  main : g.main = 0 ∨ ∃ l, g.links? g.main = some l ∧ l.kind = .start
  handlers : ∀ id ∈ g.handlers, ∃ l, g.links? id = some l ∧ l.kind = .when

def Orderly (g : Graph) : Prop := g.Linked ∧ g.Rooted

end Graph

end Blockwork
