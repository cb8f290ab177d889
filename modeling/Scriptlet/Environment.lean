import Scriptlet.Value.Basic

/-! The variables of a session. Blocks have no variables of their own, so there is one value for
each name. Which names are locked is kept apart from the values: a locked name is refused when it
is declared again. -/

namespace Scriptlet

structure Bindings where
  entries : List (String × Value)
  distinct : entries.Pairwise (·.1 ≠ ·.1)

namespace Bindings

def empty : Bindings := ⟨[], .nil⟩

def find? (bs : Bindings) (name : String) : Option Value :=
  (bs.entries.find? (·.1 = name)).map (·.2)

def contains (bs : Bindings) (name : String) : Bool := (bs.find? name).isSome

def size (bs : Bindings) : Nat := bs.entries.length

def isEmpty (bs : Bindings) : Bool := bs.entries.isEmpty

def remove (bs : Bindings) (name : String) : Bindings :=
  ⟨bs.entries.filter (·.1 ≠ name), bs.distinct.filter _⟩

def insert (bs : Bindings) (name : String) (value : Value) : Bindings where
  entries := (name, value) :: (bs.remove name).entries
  distinct := by
    refine List.pairwise_cons.2 ⟨fun entry h => ?_, (bs.remove name).distinct⟩
    exact (of_decide_eq_true (List.mem_filter.1 h).2).symm

theorem find?_remove (bs : Bindings) (name other : String) :
    (bs.remove name).find? other = if other = name then none else bs.find? other := by
  simp only [find?, remove, List.find?_filter]
  by_cases h : other = name
  · simp [h]
  · rw [if_neg h]
    congr 2
    funext entry
    by_cases hentry : entry.1 = other <;> simp [hentry, h]

theorem find?_insert (bs : Bindings) (name : String) (value : Value) (other : String) :
    (bs.insert name value).find? other = if other = name then some value else bs.find? other := by
  by_cases h : other = name
  · simp [find?, insert, h]
  · have hne : ¬ name = other := fun e => h e.symm
    have hrest := find?_remove bs name other
    rw [if_neg h] at hrest
    rw [if_neg h, ← hrest, find?, insert, List.find?_cons_of_neg (by simpa using hne), find?]

end Bindings

structure Environment where
  bindings : Bindings
  locked : List String

inductive DeclareError
  | locked (name : String)

namespace DeclareError

def message : DeclareError → String
  | locked name => s!"Cannot redeclare built-in '{name}'"

end DeclareError

namespace Environment

def seed (env : Environment) (name : String) (value : Value) : Environment where
  bindings := env.bindings.insert name value
  locked := env.locked.insert name

def initial : Environment :=
  ((seed ⟨.empty, []⟩ "null" .null).seed "true" (.boolean true)).seed "false" (.boolean false)

def lookup? (env : Environment) (name : String) : Option Value := env.bindings.find? name

def contains (env : Environment) (name : String) : Bool := env.bindings.contains name

def isLocked (env : Environment) (name : String) : Bool := env.locked.contains name

def size (env : Environment) : Nat := env.bindings.size

def isEmpty (env : Environment) : Bool := env.bindings.isEmpty

def bind (env : Environment) (name : String) (value : Value) (locked : Bool) : Environment where
  bindings := (env.bindings.remove name).insert name value
  locked := if locked then env.locked.insert name else env.locked

def declare (env : Environment) (name : String) (value : Value) (locked : Bool) :
    Except DeclareError Environment :=
  if env.isLocked name then .error (.locked name) else .ok (env.bind name value locked)

section
variable {env after : Environment} {name : String} {value : Value} {locked : Bool}

theorem contains_eq_isSome (env : Environment) (name : String) :
    env.contains name = (env.lookup? name).isSome := rfl

theorem lookup?_bind (env : Environment) (name : String) (value : Value) (locked : Bool)
    (other : String) :
    (env.bind name value locked).lookup? other =
      if other = name then some value else env.lookup? other := by
  unfold lookup? bind
  rw [Bindings.find?_insert, Bindings.find?_remove]
  split <;> rfl

theorem isLocked_bind (env : Environment) (name : String) (value : Value) (locked : Bool)
    (other : String) :
    (env.bind name value locked).isLocked other =
      (env.isLocked other || (locked && other = name)) := by
  cases locked
  · simp [isLocked, bind]
  · simp [isLocked, bind, Bool.or_comm]

theorem declare_eq_ok_iff :
    env.declare name value locked = .ok after ↔
      env.isLocked name = false ∧ env.bind name value locked = after := by
  unfold declare
  cases env.isLocked name <;> simp

end

end Environment
end Scriptlet
