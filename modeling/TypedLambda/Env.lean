import TypedLambda.Text.Columns

/-!
# Environments

A finite map from names to values, kept as a list in ascending order of the names. Inserting a name
that is bound replaces its value, so two environments with the same bindings are the same list.
-/

namespace TypedLambda

/-- A finite map from names. -/
structure Env (α : Type) where
  entries : List (String × α)
deriving DecidableEq

namespace Env

variable {α : Type}

def empty : Env α := ⟨[]⟩

/-- Insert a binding into a list of bindings in ascending order of the names. -/
def insertEntry (name : String) (a : α) : List (String × α) → List (String × α)
  | [] => [(name, a)]
  | (n, b) :: rest =>
    if name < n then (name, a) :: (n, b) :: rest
    else if name = n then (name, a) :: rest
    else (n, b) :: insertEntry name a rest

/-- The value of the first binding of a name in a list of bindings. -/
def lookupEntry (name : String) : List (String × α) → Option α
  | [] => none
  | (n, a) :: rest => if name = n then some a else lookupEntry name rest

/-- Bind a name, in place of what it was bound to. -/
def insert (env : Env α) (name : String) (a : α) : Env α := ⟨insertEntry name a env.entries⟩

def get? (env : Env α) (name : String) : Option α := lookupEntry name env.entries

def size (env : Env α) : Nat := env.entries.length

def names (env : Env α) : List String := env.entries.map (·.1)

def insertAll (env : Env α) (bindings : List (String × α)) : Env α :=
  bindings.foldl (fun e b => e.insert b.1 b.2) env

/-- An environment as text: a line for each name, the values in one column. -/
def render (showValue : α → String) (env : Env α) : String :=
  if env.entries.isEmpty then "(empty)\n"
  else
    Text.alignColumns
      (String.join (env.entries.map fun e => e.1 ++ ":\t" ++ showValue e.2 ++ "\n"))

/-! ## Look-up after insertion -/

theorem lookupEntry_insertEntry_self (name : String) (a : α) (es : List (String × α)) :
    lookupEntry name (insertEntry name a es) = some a := by
  induction es with
  | nil => simp [insertEntry, lookupEntry]
  | cons e rest ih =>
    simp only [insertEntry]
    split
    · simp [lookupEntry]
    · split
      · simp [lookupEntry]
      · rename_i h
        simp [lookupEntry, h, ih]

theorem lookupEntry_insertEntry_of_ne {name other : String} (h : other ≠ name) (a : α)
    (es : List (String × α)) :
    lookupEntry other (insertEntry name a es) = lookupEntry other es := by
  induction es with
  | nil => simp [insertEntry, lookupEntry, h]
  | cons e rest ih =>
    simp only [insertEntry]
    split
    · simp [lookupEntry, h]
    · split
      · rename_i hn
        simp [lookupEntry, h, ← hn]
      · simp only [lookupEntry, ih]

@[simp] theorem get?_insert_self (env : Env α) (name : String) (a : α) :
    (env.insert name a).get? name = some a :=
  lookupEntry_insertEntry_self name a env.entries

theorem get?_insert_of_ne {name other : String} (h : other ≠ name) (env : Env α) (a : α) :
    (env.insert name a).get? other = env.get? other :=
  lookupEntry_insertEntry_of_ne h a env.entries

theorem get?_insert (env : Env α) (name other : String) (a : α) :
    (env.insert name a).get? other = if other = name then some a else env.get? other := by
  split
  · rename_i h
    rw [h, get?_insert_self]
  · rename_i h
    exact get?_insert_of_ne h env a

@[simp] theorem get?_empty (name : String) : (empty : Env α).get? name = none := rfl

/-! ## Look-up after many insertions -/

@[simp] theorem insertAll_nil (env : Env α) : env.insertAll [] = env := rfl

@[simp] theorem insertAll_cons (env : Env α) (b : String × α) (bs : List (String × α)) :
    env.insertAll (b :: bs) = (env.insert b.1 b.2).insertAll bs := rfl

theorem insertAll_append (env : Env α) (bs cs : List (String × α)) :
    env.insertAll (bs ++ cs) = (env.insertAll bs).insertAll cs :=
  List.foldl_append

theorem get?_insertAll_of_not_mem {name : String} {bs : List (String × α)}
    (h : name ∉ bs.map (·.1)) (env : Env α) : (env.insertAll bs).get? name = env.get? name := by
  induction bs generalizing env with
  | nil => rfl
  | cons b bs ih =>
    simp only [List.map_cons, List.mem_cons, not_or] at h
    rw [insertAll_cons, ih h.2, get?_insert_of_ne h.1]

theorem get?_insertAll_of_mem {b : String × α} {bs : List (String × α)}
    (hnodup : (bs.map (·.1)).Nodup) (hb : b ∈ bs) (env : Env α) :
    (env.insertAll bs).get? b.1 = some b.2 := by
  induction bs generalizing env with
  | nil => cases hb
  | cons c bs ih =>
    rw [List.map_cons, List.nodup_cons] at hnodup
    rw [insertAll_cons]
    rcases List.mem_cons.mp hb with rfl | hb
    · rw [get?_insertAll_of_not_mem hnodup.1, get?_insert_self]
    · exact ih hnodup.2 hb _

/-! ## Larger environments -/

/-- The second environment binds every name of the first to the same value. -/
def Grows (env env' : Env α) : Prop :=
  ∀ name a, env.get? name = some a → env'.get? name = some a

theorem Grows.trans {e₁ e₂ e₃ : Env α} (h₁ : e₁.Grows e₂) (h₂ : e₂.Grows e₃) : e₁.Grows e₃ :=
  fun name a h => h₂ name a (h₁ name a h)

theorem grows_insert {env : Env α} {name : String} (h : env.get? name = none) (a : α) :
    env.Grows (env.insert name a) := by
  intro other b hb
  have hne : other ≠ name := by
    rintro rfl
    rw [h] at hb
    cases hb
  rwa [get?_insert_of_ne hne]

end Env

end TypedLambda
