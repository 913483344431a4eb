/-
The parts of Go's semantics that the chain and the `spinc` command lean
on: a `map[string]T` that reads the zero value at an absent key, and the
64-bit `int` and `uint` arithmetic of the try counters. The Job Runner is
built for a 64-bit target, so `int` and `uint` are 64 bits wide
(`strconv.IntSize` is 64).

# Maps

A Go map is an association list with distinct keys (`AList`). Its entry
order stands for one iteration order of a `range` loop. Go fixes none, so
a theorem that holds for every `GoMap` holds for every order the runtime
may pick; where a statement needs two orders of one map side by side, it
takes a permutation of `entries` (`AList.perm_lookup`: both read alike).
`m[k]` reads as in Go, falling back to `default`, the Go zero value; an
assignment `m[k] = v` is `AList.insert`.

# Integers

`uint` values are `Nat` and `int` values are `Int`, with the conversions
`int(u)`, `uint(i)` and the wrapping sums written out (`goInt`, `goUint`,
`addInt`, `addUint`), so a counter at or past `2^63` behaves as in Go.
-/
import Mathlib.Algebra.BigOperators.Group.List
import Mathlib.Algebra.Group.Int
import Mathlib.Algebra.Order.Ring.Nat
import Mathlib.Data.List.AList

namespace SpinCycle

/-- A Go `map[string]α`: distinct keys, entries in one iteration order. -/
abbrev GoMap (α : Type) := AList fun _ : String => α

namespace GoMap

variable {α β : Type}

/-- `m[k]`: the value at `k`, or the zero value when `k` is absent. A Go
map read never fails, so the index needs no proof. -/
instance [Inhabited α] : GetElem (GoMap α) String α fun _ _ => True where
  getElem m k _ := (m.lookup k).getD default

/-- `for k, v := range m { m[k] = f(k, v) }`: every value rewritten in
place, the keys and their order kept. -/
def mapVal (f : String → α → β) (m : GoMap α) : GoMap β :=
  ⟨m.entries.map fun e => ⟨e.1, f e.1 e.2⟩, by
    have hk : (m.entries.map fun e => (⟨e.1, f e.1 e.2⟩ : Σ _ : String, β)).keys
        = m.entries.keys := by
      simp only [List.keys, List.map_map]; rfl
    exact (List.NodupKeys.eq_1 _).symm ▸ hk ▸ m.nodupKeys⟩

@[simp] theorem entries_mapVal (f : String → α → β) (m : GoMap α) :
    (m.mapVal f).entries = m.entries.map fun e => ⟨e.1, f e.1 e.2⟩ := rfl

section getElem

variable [Inhabited α]

theorem getElem_def (m : GoMap α) (k : String) : m[k] = (m.lookup k).getD default := rfl

@[simp] theorem getElem_insert_self (m : GoMap α) (k : String) (v : α) :
    (m.insert k v)[k] = v := by
  simp [getElem_def]

@[simp] theorem getElem_insert_ne (m : GoMap α) {k k' : String} (v : α) (h : k' ≠ k) :
    (m.insert k v)[k'] = m[k'] := by
  simp [getElem_def, AList.lookup_insert_ne h]

theorem getElem_of_lookup {m : GoMap α} {k : String} {v : α} (h : m.lookup k = some v) :
    m[k] = v := by
  simp [getElem_def, h]

theorem getElem_of_not_mem {m : GoMap α} {k : String} (h : k ∉ m) : m[k] = default := by
  simp [getElem_def, AList.lookup_eq_none.2 h]

/-- At a key of the map, the lookup hits the value the read returns. -/
theorem lookup_eq_some_getElem {m : GoMap α} {k : String} (h : k ∈ m) :
    m.lookup k = some m[k] := by
  obtain ⟨v, hv⟩ := Option.isSome_iff_exists.1 (AList.lookup_isSome.2 h)
  simp [getElem_def, hv]

end getElem

/-- A property of every key is decided key by key. -/
instance decidableBAll (m : GoMap α) (p : String → Prop) [DecidablePred p] :
    Decidable (∀ k ∈ m, p k) :=
  decidable_of_iff (∀ k ∈ m.keys, p k) (forall₂_congr fun _ _ => Iff.rfl)

/-- An entry is in the map exactly when its key looks up its value. -/
theorem mem_entries {m : GoMap α} {e : Σ _ : String, α} :
    e ∈ m.entries ↔ m.lookup e.1 = some e.2 :=
  AList.mem_lookup_iff.symm

/-- A property of every entry is one of every key and the value read there. -/
theorem forall_mem_entries [Inhabited α] {m : GoMap α} {p : String → α → Prop} :
    (∀ e ∈ m.entries, p e.1 e.2) ↔ ∀ k ∈ m, p k m[k] := by
  constructor
  · intro h k hk
    exact h ⟨k, m[k]⟩ (mem_entries.2 (lookup_eq_some_getElem hk))
  · intro h e he
    have hl := mem_entries.1 he
    rw [← getElem_of_lookup hl]
    exact h e.1 (AList.lookup_isSome.1 (by simp [hl]))

/-- Some entry has a property exactly when some key and its read have it. -/
theorem exists_mem_entries [Inhabited α] {m : GoMap α} {p : String → α → Prop} :
    (∃ e ∈ m.entries, p e.1 e.2) ↔ ∃ k ∈ m, p k m[k] := by
  constructor
  · rintro ⟨e, he, hp⟩
    have hl := mem_entries.1 he
    exact ⟨e.1, AList.lookup_isSome.1 (by simp [hl]), by rwa [getElem_of_lookup hl]⟩
  · rintro ⟨k, hk, hp⟩
    exact ⟨⟨k, m[k]⟩, mem_entries.2 (lookup_eq_some_getElem hk), hp⟩

/-- A member of a list-valued read sits in the list stored at the key. -/
theorem mem_getElem_list {m : GoMap (List β)} {k : String} {x : β} :
    x ∈ m[k] ↔ ∃ l, m.lookup k = some l ∧ x ∈ l := by
  rw [getElem_def]
  cases m.lookup k <;> simp [default]

@[simp] theorem lookup_mapVal (f : String → α → β) (m : GoMap α) (k : String) :
    (m.mapVal f).lookup k = (m.lookup k).map (f k) := by
  simp only [AList.lookup, mapVal]
  induction m.entries with
  | nil => rfl
  | cons e l ih =>
      obtain ⟨a, b⟩ := e
      by_cases h : k = a
      · subst h; simp [List.dlookup_cons_eq]
      · simp [List.dlookup_cons_ne _ ⟨a, _⟩ h, ih]

/-- At a key of the map, the rewritten map reads the rewritten value. -/
theorem getElem_mapVal_of_mem [Inhabited α] [Inhabited β] (f : String → α → β)
    {m : GoMap α} {k : String} (h : k ∈ m) : (m.mapVal f)[k] = f k m[k] :=
  getElem_of_lookup (by rw [lookup_mapVal, lookup_eq_some_getElem h]; rfl)

@[simp] theorem mem_mapVal (f : String → α → β) (m : GoMap α) (k : String) :
    k ∈ m.mapVal f ↔ k ∈ m := by
  rw [← AList.lookup_isSome, ← AList.lookup_isSome, lookup_mapVal]
  cases m.lookup k <;> simp

/-- Overwriting the value at a key of the map moves a sum over the values
by the difference of the two values' terms. -/
theorem sum_insert_of_mem [Inhabited α] (f : α → Nat) {m : GoMap α} {k : String} (h : k ∈ m)
    (v : α) : ((m.insert k v).entries.map fun e => f e.2).sum + f m[k]
      = (m.entries.map fun e => f e.2).sum + f v := by
  obtain ⟨b, l₁, l₂, -, he, hker⟩ :=
    List.exists_of_kerase (show k ∈ m.entries.keys from h)
  have hb : m[k] = b :=
    getElem_of_lookup
      (AList.mem_lookup_iff.2 (he ▸ List.mem_append_right _ (List.mem_cons_self _ _)))
  rw [AList.insert_entries, hker, he, hb]
  simp only [List.map_cons, List.map_append, List.sum_cons, List.sum_append]
  omega

/-- Rewriting every value by a map that fixes it changes nothing. -/
theorem mapVal_eq_self {f : String → α → α} {m : GoMap α}
    (h : ∀ e ∈ m.entries, f e.1 e.2 = e.2) : m.mapVal f = m := by
  apply AList.ext
  simp only [mapVal]
  conv_rhs => rw [← List.map_id m.entries]
  exact List.map_congr_left fun e he => by rw [h e he]; rfl

end GoMap

-- ====================================================== 64-bit integers

/-- A value of Go's 64-bit `int`. -/
def IsGoInt (i : Int) : Prop := -2 ^ 63 ≤ i ∧ i < 2 ^ 63

instance : DecidablePred IsGoInt := fun _ => inferInstanceAs (Decidable (_ ∧ _))

/-- Go's `int(u)`: the two's-complement reading of the low 64 bits of `u`. -/
def goInt (u : Nat) : Int :=
  if u % 2 ^ 64 < 2 ^ 63 then ((u % 2 ^ 64 : Nat) : Int) else ((u % 2 ^ 64 : Nat) : Int) - 2 ^ 64

/-- Go's `uint(i)`: `i` modulo `2^64`. -/
def goUint (i : Int) : Nat := (i % 2 ^ 64).toNat

/-- Go's `a + b` on `int`: the sum, wrapped into the signed 64-bit range. -/
def addInt (a b : Int) : Int := goInt (goUint (a + b))

/-- Go's `a += b` on `uint`: the sum modulo `2^64`. -/
def addUint (a b : Nat) : Nat := (a + b) % 2 ^ 64

theorem goInt_of_lt {u : Nat} (h : u < 2 ^ 63) : goInt u = u := by
  unfold goInt
  rw [if_pos (by omega)]
  omega

theorem goUint_of_lt {i : Int} (h0 : 0 ≤ i) (h : i < 2 ^ 64) : (goUint i : Int) = i := by
  unfold goUint
  omega

/-- On sums that stay in the signed range, `int` addition is exact. -/
theorem addInt_of_lt {a b : Int} (h0 : -2 ^ 63 ≤ a + b) (h : a + b < 2 ^ 63) :
    addInt a b = a + b := by
  unfold addInt goInt goUint
  split <;> omega

/-- `uint(int(u) + d)` is `u + d` modulo `2^64`, whatever the signs: the
conversions and the wrapping sum are all reductions modulo `2^64`. -/
theorem goUint_addInt_goInt (u : Nat) (d : Int) :
    goUint (addInt (goInt u) d) = goUint (u + d) := by
  unfold addInt goInt goUint
  split <;> split <;> omega

/-- A nonnegative `int` plus an `int`, when the sum reads nonnegative, did
not wrap: a wrapped sum of these reads negative. -/
theorem addInt_eq_of_nonneg {a b : Int} (ha : 0 ≤ a) (ha' : a < 2 ^ 63) (hb : IsGoInt b)
    (h : 0 ≤ addInt a b) : addInt a b = a + b := by
  unfold IsGoInt at hb
  unfold addInt goInt goUint at *
  split at h <;> split <;> omega

theorem addUint_of_lt {a b : Nat} (h : a + b < 2 ^ 64) : addUint a b = a + b :=
  Nat.mod_eq_of_lt h

end SpinCycle
