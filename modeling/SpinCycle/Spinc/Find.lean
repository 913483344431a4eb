/-
`spinc find`: `Find.Prepare` turns the command args (`filter=value`
each) into the `proto.RequestFilter` that `Run` sends to the Request
Manager.

# The model

`prepare` follows `Prepare` step by step: the loop over the args
(`collectFilters`) that splits each at its first `=` (`strings.SplitN`),
checks the filter name against `validFilters` and refuses a repeated one;
then the states (`strings.Split` on `,`, each name through
`proto.StateValue`), the two times (`strings.Index` of `UTC`, then
`time.Parse`), and `limit` and `offset` (`strconv.ParseUint`). Errors
carry `Prepare`'s texts. `strings.Index` counts bytes, so strings are read
as their UTF-8 bytes there. `time` is not among the sources: its zero
`Time` and `time.Parse` enter as a `TimeApi`. The `Debug` print is output
only and is left out.

# What `Prepare` accepts

`Accepts` states, in the terms of a reader of the command's usage, when
`Prepare` returns `nil`, and `specFilter` the filter it builds then:
both read the args through `argKey`, `argValue` and `givenValue` (the
text before the first `=`, after it, and the value given for a filter).
`prepare_correct` shows `prepare` returns a filter exactly when the args
are accepted, and then returns `specFilter`; neither depends on the order
of the args, though the first error met does.
-/
import SpinCycle.Chain.Basic

namespace SpinCycle.Spinc

-- ======================================================== Go's strings

/-- The UTF-8 bytes of a Go string. -/
def goBytes (s : String) : List UInt8 := s.toList.flatMap String.utf8EncodeChar

/-- The offset of the first occurrence of `sub` in a byte string, counting
from `i`, or `-1`. -/
def indexFrom (sub : List UInt8) : List UInt8 → Nat → Int
  | [], i => if sub = [] then i else -1
  | b :: s, i => if sub.isPrefixOf (b :: s) then i else indexFrom sub s (i + 1)

/-- `strings.Index`: the byte offset of the first occurrence of `substr`
in `s`, or `-1`. -/
def index (s substr : String) : Int := indexFrom (goBytes substr) (goBytes s) 0

/-- `strings.SplitN(s, sep, 2)` for a one-character `sep`: the text before
the first `sep` and the text after it, or `s` alone when `sep` does not
occur. -/
def splitN (s : String) (sep : Char) : List String :=
  match s.toList.dropWhile (· ≠ sep) with
  | [] => [s]
  | _ :: after => [String.mk (s.toList.takeWhile (· ≠ sep)), String.mk after]

/-- `strings.Split(s, sep)` for a one-character `sep`. -/
def split (s : String) (sep : Char) : List String :=
  (s.toList.splitOn sep).map String.mk

/-- `strconv.ParseUint(s, 10, 64)`: a non-empty string of decimal digits
whose value fits in 64 bits. -/
def parseUint (s : String) : Option Nat :=
  if s.toList ≠ [] ∧ s.toList.all Char.isDigit then
    let n := s.toList.foldl (fun n c => 10 * n + (c.toNat - '0'.toNat)) 0
    if n < 2 ^ 64 then some n else none
  else none

-- ================================================================ Find

/-- What `Prepare` needs of Go's `time` package: the zero `Time` and
`time.Parse(layout, value)`. -/
structure TimeApi (τ : Type) where
  zero : τ
  parse : String → String → Option τ

/-- `proto.RequestFilter`, the fields `Prepare` sets (`untilTime` is
`Until`: `until` is a Lean keyword). -/
structure RequestFilter (τ : Type) where
  type : String
  states : List UInt8
  user : String
  since : τ
  untilTime : τ
  limit : Nat
  offset : Nat
deriving DecidableEq

/-- `findLimitDefault`. -/
def findLimitDefault : Nat := 10

/-- `findTimeFmt`: the time form the usage shows. -/
def findTimeFmt : String := "YYYY-MM-DD HH:MM:SS UTC"

/-- `findTimeFmtStr`: the same form as a `time.Parse` layout. -/
def findTimeFmtStr : String := "2006-01-02 15:04:05 MST"

/-- `findUtcIndex`: where `UTC` stands in `findTimeFmt`. -/
def findUtcIndex : Int := index findTimeFmt "UTC"

theorem findUtcIndex_eq : findUtcIndex = 20 := by decide

/-- The filter names, in the order of `validFilters`' literal. -/
def filterNames : List String := ["type", "states", "user", "since", "until", "limit", "offset"]

/-- `validFilters`. -/
def validFilters : GoMap Bool :=
  (filterNames.map fun k => (⟨k, true⟩ : Σ _ : String, Bool)).toAList

/-- The loop of `Prepare` over the command args: split each at its first
`=`, check the filter name, refuse a repeated one, record the value. -/
def collectFilters : List String → GoMap String → Except String (GoMap String)
  | [], filters => .ok filters
  | arg :: args, filters =>
      match splitN arg '=' with
      | [filter, value] =>
          if !validFilters[filter] then .error ("Invalid filter '" ++ filter ++ "'")
          else if filter ∈ filters then
            .error ("Filter '" ++ filter ++ "' specified multiple times")
          else collectFilters args (filters.insert filter value)
      | split => .error ("Invalid command arg: " ++ arg ++ ": split on = produced " ++
          toString split.length ++ " values, expected 2 (filter=value)")

/-- The `states` filter: each comma-separated name through
`proto.StateValue`, in order; an empty value asks for no state. -/
def parseStates (P : Proto) (value : String) : Except String (List UInt8) :=
  if value.length > 0 then
    (split value ',').mapM fun state =>
      match P.stateValue.lookup state with
      | some val => .ok val
      | none => .error ("Invalid state '" ++ state ++ "', expected one of: " ++
          ", ".intercalate P.stateValue.keys)
  else .ok []

variable {τ : Type}

/-- The `since` and `until` filters, one block each in `Prepare`: `UTC`
must first occur at `findUtcIndex`, and the value parse under
`findTimeFmtStr`; an empty value is the zero time. -/
def parseTime (T : TimeApi τ) (value : String) : Except String τ :=
  if value ≠ "" then
    if index value "UTC" ≠ findUtcIndex then
      .error ("Invalid time " ++ value ++ ", expected string 'UTC' at index " ++
        toString findUtcIndex)
    else match T.parse findTimeFmtStr value with
      | some t => .ok t
      | none => .error ("Invalid time " ++ value ++ ", expected form '" ++ findTimeFmt ++ "'")
  else .ok T.zero

/-- The `limit` and `offset` filters: an empty value is the default
(`findLimitDefault` and `0`); any other must pass `strconv.ParseUint`.
`Prepare` tests `limit` for `== ""` and `offset` for `!= ""`, which
branch the same way. -/
def parseCount (name : String) (default : Nat) (value : String) : Except String Nat :=
  if value = "" then .ok default
  else match parseUint value with
    | some n => .ok n
    | none => .error ("Invalid " ++ name ++ " '" ++ value ++ "', expected value >= 0")

/-- `Find.Prepare`. -/
def Find.prepare (P : Proto) (T : TimeApi τ) (args : List String) :
    Except String (RequestFilter τ) := do
  let filters ← collectFilters args ∅
  let states ← parseStates P filters["states"]
  let since ← parseTime T filters["since"]
  let untilTime ← parseTime T filters["until"]
  let limit ← parseCount "limit" findLimitDefault filters["limit"]
  let offset ← parseCount "offset" 0 filters["offset"]
  pure { type := filters["type"], states, user := filters["user"], since, untilTime, limit, offset }

-- ============================================================ the spec

/-- The filter an arg names, as the usage reads it: the text before its
first `=`. -/
def argKey (arg : String) : String := String.mk (arg.toList.takeWhile (· ≠ '='))

/-- The value an arg gives: the text after its first `=`. -/
def argValue (arg : String) : String := String.mk ((arg.toList.dropWhile (· ≠ '=')).drop 1)

/-- The value given for filter `k`: that of the first arg naming it, or
empty when none does. -/
def givenValue (args : List String) (k : String) : String :=
  ((args.find? fun arg => argKey arg = k).map argValue).getD ""

/-- When `Prepare` returns `nil`: every arg is `filter=value` with a known
filter, no filter is given twice, the states are known names, the times
have `UTC` at byte 20 and parse, and the counts are 64-bit decimals. -/
structure Accepts (P : Proto) (T : TimeApi τ) (args : List String) : Prop where
  wellFormed : ∀ arg ∈ args, '=' ∈ arg.toList ∧ argKey arg ∈ filterNames
  distinct : (args.map argKey).Nodup
  states : givenValue args "states" ≠ "" →
    ∀ s ∈ split (givenValue args "states") ',', s ∈ P.stateValue
  times : ∀ k ∈ ["since", "until"], givenValue args k ≠ "" →
    index (givenValue args k) "UTC" = 20 ∧ (T.parse findTimeFmtStr (givenValue args k)).isSome
  counts : ∀ k ∈ ["limit", "offset"], givenValue args k ≠ "" →
    (parseUint (givenValue args k)).isSome

/-- A time as given: the zero time when empty, else as parsed. -/
def specTime (T : TimeApi τ) (v : String) : τ :=
  if v = "" then T.zero else (T.parse findTimeFmtStr v).getD T.zero

/-- A count as given: the default when empty, else as parsed. -/
def specCount (default : Nat) (v : String) : Nat :=
  if v = "" then default else (parseUint v).getD 0

/-- The filter the accepted args ask for. -/
def specFilter (P : Proto) (T : TimeApi τ) (args : List String) : RequestFilter τ where
  type := givenValue args "type"
  states := if givenValue args "states" = "" then []
    else (split (givenValue args "states") ',').filterMap P.stateValue.lookup
  user := givenValue args "user"
  since := specTime T (givenValue args "since")
  untilTime := specTime T (givenValue args "until")
  limit := specCount 10 (givenValue args "limit")
  offset := specCount 0 (givenValue args "offset")

-- ============================================================ the steps

theorem bind_eq_ok {ε α β : Type} {x : Except ε α} {f : α → Except ε β} {b : β} :
    x >>= f = .ok b ↔ ∃ a, x = .ok a ∧ f a = .ok b := by
  cases x <;> simp [bind, Except.bind]

theorem splitN_of_mem {arg : String} (h : '=' ∈ arg.toList) :
    splitN arg '=' = [argKey arg, argValue arg] := by
  have hne : arg.toList.dropWhile (· ≠ '=') ≠ [] := fun he => by
    simpa using List.dropWhile_eq_nil_iff.1 he '=' h
  unfold splitN argValue argKey
  cases hd : arg.toList.dropWhile (· ≠ '=') with
  | nil => exact absurd hd hne
  | cons c after => rfl

theorem splitN_of_not_mem {arg : String} (h : '=' ∉ arg.toList) : splitN arg '=' = [arg] := by
  have he : arg.toList.dropWhile (· ≠ '=') = [] :=
    List.dropWhile_eq_nil_iff.2 fun c hc => by simpa using ne_of_mem_of_not_mem hc h
  unfold splitN
  rw [he]

theorem validFilters_iff (k : String) : validFilters[k] = true ↔ k ∈ filterNames := by
  have hk :
      (filterNames.map fun k => (⟨k, true⟩ : Σ _ : String, Bool)).keys = filterNames := by
    simp [List.keys, Function.comp_def]
  rw [GoMap.getElem_def, validFilters, AList.lookup_to_alist]
  cases h : List.dlookup k (filterNames.map fun k => (⟨k, true⟩ : Σ _ : String, Bool)) with
  | none =>
      rw [List.dlookup_eq_none, hk] at h
      simpa [default] using h
  | some b =>
      obtain ⟨k', hk', he⟩ := List.mem_map.1 (List.of_mem_dlookup h)
      obtain ⟨rfl, hb⟩ := Sigma.mk.inj_iff.1 he
      simp [← eq_of_heq hb, hk']

-- ===================================================== the args loop

/-- What the loop needs of the args to return: each is `filter=value`
with a known filter, none repeats a filter, and none names one already
recorded in `m`. -/
def CollectOk (args : List String) (m : GoMap String) : Prop :=
  (∀ arg ∈ args, '=' ∈ arg.toList ∧ argKey arg ∈ filterNames) ∧
    (args.map argKey).Nodup ∧ ∀ arg ∈ args, argKey arg ∉ m

theorem collectFilters_cons_of_mem {arg : String} {args : List String} {m : GoMap String}
    (h : '=' ∈ arg.toList) : collectFilters (arg :: args) m =
      if !validFilters[argKey arg] then .error ("Invalid filter '" ++ argKey arg ++ "'")
      else if argKey arg ∈ m then
        .error ("Filter '" ++ argKey arg ++ "' specified multiple times")
      else collectFilters args (m.insert (argKey arg) (argValue arg)) := by
  rw [collectFilters, splitN_of_mem h]

theorem collectFilters_cons_of_not_mem {arg : String} (args : List String) (m : GoMap String)
    (h : '=' ∉ arg.toList) : ∃ msg, collectFilters (arg :: args) m = .error msg := by
  rw [collectFilters, splitN_of_not_mem h]
  exact ⟨_, rfl⟩

/-- The loop returns exactly when the args are well formed and distinct. -/
theorem collectFilters_ok_iff (args : List String) (m : GoMap String) :
    (∃ filters, collectFilters args m = .ok filters) ↔ CollectOk args m := by
  induction args generalizing m with
  | nil => simp [collectFilters, CollectOk]
  | cons arg args ih =>
      by_cases he : '=' ∈ arg.toList
      · rw [collectFilters_cons_of_mem he]
        by_cases hv : argKey arg ∈ filterNames
        · have hv' := (validFilters_iff (argKey arg)).2 hv
          by_cases hm : argKey arg ∈ m
          · simp [hv', hm, CollectOk]
          · simp only [hv', hm, ih, CollectOk, Bool.not_true, Bool.false_eq_true, if_false,
              AList.mem_insert, List.mem_cons, List.map_cons, List.nodup_cons, List.mem_map,
              forall_eq_or_imp, he, hv, true_and, not_or, forall_and, not_exists, not_and,
              not_false_eq_true]
            exact ⟨fun ⟨h₁, h₂, h₃, h₄⟩ => ⟨h₁, ⟨h₃, h₂⟩, h₄⟩,
              fun ⟨h₁, ⟨h₃, h₂⟩, h₄⟩ => ⟨h₁, h₂, h₃, h₄⟩⟩
        · have hv' : validFilters[argKey arg] = false :=
            Bool.eq_false_iff.2 fun h => hv ((validFilters_iff _).1 h)
          simp [hv', hv, CollectOk]
      · obtain ⟨msg, hmsg⟩ := collectFilters_cons_of_not_mem args m he
        have he' : '=' ∉ arg.data := he
        simp [hmsg, he', CollectOk]

/-- The map the loop returns reads, at each filter, the value of the arg
naming it, or what `m` held. -/
theorem collectFilters_getElem {args : List String} {m filters : GoMap String}
    (h : collectFilters args m = .ok filters) (k : String) :
    filters[k] = ((args.find? fun arg => argKey arg = k).map argValue).getD m[k] := by
  induction args generalizing m with
  | nil => cases h; rfl
  | cons arg args ih =>
      have he : '=' ∈ arg.toList := by
        by_contra he
        obtain ⟨msg, hmsg⟩ := collectFilters_cons_of_not_mem args m he
        rw [hmsg] at h
        cases h
      rw [collectFilters_cons_of_mem he] at h
      split at h
      · cases h
      split at h
      · cases h
      rw [ih h, List.find?_cons]
      by_cases hk : argKey arg = k
      · subst hk
        -- no later arg names the filter again, or the loop would have refused it
        have hnone : (args.find? fun a => argKey a = argKey arg) = none :=
          List.find?_eq_none.2 fun a ha hka => by
            have := ((collectFilters_ok_iff args _).1 ⟨_, h⟩).2.2 a ha
            simp_all
        simp [hnone]
      · simp [hk, GoMap.getElem_insert_ne _ _ (Ne.symm hk)]

-- ================================================== the value checks

theorem mapM_ok_iff {f : String → Except String UInt8} {m : GoMap UInt8}
    (hf : ∀ s v, f s = .ok v ↔ m.lookup s = some v) (l : List String) (r : List UInt8) :
    l.mapM f = .ok r ↔ (∀ s ∈ l, s ∈ m) ∧ r = l.filterMap m.lookup := by
  induction l generalizing r with
  | nil =>
      simp only [List.mapM_nil, List.filterMap_nil, List.not_mem_nil, false_implies, implies_true,
        true_and]
      exact ⟨fun h => (Except.ok.inj h).symm, fun h => h ▸ rfl⟩
  | cons s l ih =>
      simp only [List.mapM_cons, bind_eq_ok, ih, hf, List.forall_mem_cons, List.filterMap_cons]
      constructor
      · rintro ⟨v, hv, ys, ⟨hl, rfl⟩, hr⟩
        cases hr
        exact ⟨⟨AList.lookup_isSome.1 (by simp [hv]), hl⟩, by simp [hv]⟩
      · rintro ⟨⟨hs, hl⟩, rfl⟩
        obtain ⟨v, hv⟩ := Option.isSome_iff_exists.1 (AList.lookup_isSome.2 hs)
        exact ⟨v, hv, _, ⟨hl, rfl⟩, by simp [hv]; rfl⟩

theorem parseStates_ok_iff (P : Proto) (v : String) (r : List UInt8) :
    parseStates P v = .ok r ↔ (v ≠ "" → ∀ s ∈ split v ',', s ∈ P.stateValue) ∧
      r = if v = "" then [] else (split v ',').filterMap P.stateValue.lookup := by
  by_cases hv : v = ""
  · subst hv; simp [parseStates, eq_comm]
  · have hl : v.length > 0 := by
      obtain ⟨l⟩ := v
      cases l
      · exact absurd rfl hv
      · simp [String.length]
    rw [parseStates, if_pos hl, mapM_ok_iff (m := P.stateValue) (fun s w => by split <;> simp_all)]
    simp [hv]

theorem parseTime_ok_iff (T : TimeApi τ) (v : String) (t : τ) :
    parseTime T v = .ok t ↔
      (v ≠ "" → index v "UTC" = 20 ∧ (T.parse findTimeFmtStr v).isSome) ∧
        t = specTime T v := by
  unfold parseTime specTime
  by_cases hv : v = ""
  · simp only [hv, ne_eq, not_true_eq_false, if_false, if_true, false_implies, true_and,
      Except.ok.injEq]
    exact eq_comm
  · rw [if_pos hv, if_neg hv, findUtcIndex_eq]
    by_cases hi : index v "UTC" = 20
    · rw [if_neg (not_not.2 hi)]
      cases T.parse findTimeFmtStr v with
      | none => simp [hv]
      | some t' => simpa [hv, hi] using eq_comm
    · rw [if_pos hi]
      simp [hi, hv]

theorem parseCount_ok_iff (name : String) (d : Nat) (v : String) (n : Nat) :
    parseCount name d v = .ok n ↔ (v ≠ "" → (parseUint v).isSome) ∧ n = specCount d v := by
  unfold parseCount specCount
  by_cases hv : v = ""
  · simp only [hv, ne_eq, not_true_eq_false, if_true, false_implies, true_and, Except.ok.injEq]
    exact eq_comm
  · rw [if_neg hv, if_neg hv]
    cases parseUint v with
    | none => simp [hv]
    | some n' => simpa [hv] using eq_comm

-- ============================================================= Prepare

/-- `Prepare` returns a filter exactly when the args are accepted, and
the filter is the one they ask for. -/
theorem prepare_ok_iff (P : Proto) (T : TimeApi τ) (args : List String) (f : RequestFilter τ) :
    Find.prepare P T args = .ok f ↔ Accepts P T args ∧ f = specFilter P T args := by
  simp only [Find.prepare, bind_eq_ok]
  constructor
  · rintro ⟨filters, hc, states, hs, since, hsi, untilTime, hu, limit, hl, offset, ho, hf⟩
    have hok := (collectFilters_ok_iff args ∅).1 ⟨_, hc⟩
    have hg : ∀ k, filters[k] = givenValue args k := fun k => collectFilters_getElem hc k
    simp only [hg] at hs hsi hu hl ho hf
    obtain ⟨hs', rfl⟩ := (parseStates_ok_iff _ _ _).1 hs
    obtain ⟨hsi', rfl⟩ := (parseTime_ok_iff _ _ _).1 hsi
    obtain ⟨hu', rfl⟩ := (parseTime_ok_iff _ _ _).1 hu
    obtain ⟨hl', rfl⟩ := (parseCount_ok_iff _ _ _ _).1 hl
    obtain ⟨ho', rfl⟩ := (parseCount_ok_iff _ _ _ _).1 ho
    cases hf
    refine ⟨⟨hok.1, hok.2.1, hs', ?_, ?_⟩, rfl⟩ <;>
      simp only [List.forall_mem_cons, List.not_mem_nil, false_implies, implies_true, and_true]
    exacts [⟨hsi', hu'⟩, ⟨hl', ho'⟩]
  · rintro ⟨ha, rfl⟩
    obtain ⟨filters, hc⟩ :=
      (collectFilters_ok_iff args ∅).2 ⟨ha.wellFormed, ha.distinct, by simp⟩
    have hg : ∀ k, filters[k] = givenValue args k := fun k => collectFilters_getElem hc k
    have ht := ha.times
    have hn := ha.counts
    simp only [List.forall_mem_cons, List.not_mem_nil, false_implies, implies_true,
      and_true] at ht hn
    refine ⟨filters, hc, ?_⟩
    simp only [hg]
    exact ⟨_, (parseStates_ok_iff _ _ _).2 ⟨ha.states, rfl⟩,
      _, (parseTime_ok_iff _ _ _).2 ⟨ht.1, rfl⟩, _, (parseTime_ok_iff _ _ _).2 ⟨ht.2, rfl⟩,
      _, (parseCount_ok_iff _ _ _ _).2 ⟨hn.1, rfl⟩,
      _, (parseCount_ok_iff _ _ _ _).2 ⟨hn.2, rfl⟩, rfl⟩

-- ========================================================= arg order

section perm

variable {args args' : List String}

/-- With distinct filter names, the first arg naming a filter is the only
one, in any order of the args. -/
theorem find?_argKey_perm (hd : (args.map argKey).Nodup) (hp : args'.Perm args) (k : String) :
    args'.find? (fun arg => argKey arg = k) = args.find? (fun arg => argKey arg = k) := by
  cases h : args.find? (fun arg => argKey arg = k) with
  | none => exact List.find?_eq_none.2 fun x hx => List.find?_eq_none.1 h x (hp.subset hx)
  | some a =>
      have ha := List.mem_of_find?_eq_some h
      have hka : argKey a = k := by simpa using List.find?_some h
      cases h' : args'.find? (fun arg => argKey arg = k) with
      | none => exact absurd (decide_eq_true hka) (List.find?_eq_none.1 h' a (hp.symm.subset ha))
      | some b =>
          have hkb : argKey b = k := by simpa using List.find?_some h'
          exact congrArg some (List.inj_on_of_nodup_map hd
            (hp.subset (List.mem_of_find?_eq_some h')) ha (hkb.trans hka.symm))

theorem givenValue_perm (hd : (args.map argKey).Nodup) (hp : args'.Perm args) (k : String) :
    givenValue args' k = givenValue args k := by
  simp only [givenValue, find?_argKey_perm hd hp]

theorem Accepts.perm {P : Proto} {T : TimeApi τ} (h : Accepts P T args) (hp : args'.Perm args) :
    Accepts P T args' where
  wellFormed arg ha := h.wellFormed arg (hp.subset ha)
  distinct := (hp.map argKey).nodup_iff.2 h.distinct
  states := by simpa only [givenValue_perm h.distinct hp] using h.states
  times := by simpa only [givenValue_perm h.distinct hp] using h.times
  counts := by simpa only [givenValue_perm h.distinct hp] using h.counts

theorem specFilter_perm (P : Proto) (T : TimeApi τ) (hd : (args.map argKey).Nodup)
    (hp : args'.Perm args) : specFilter P T args' = specFilter P T args := by
  simp only [specFilter, givenValue_perm hd hp]

end perm

/-- `Prepare` returns `nil` exactly when the args are accepted, and then
builds the filter they ask for; in any other order the args are accepted
alike and ask for the same filter. -/
theorem prepare_correct (P : Proto) (T : TimeApi τ) (args : List String) :
    (∀ f, Find.prepare P T args = .ok f ↔ Accepts P T args ∧ f = specFilter P T args) ∧
    ∀ args', args'.Perm args →
      ((∃ f, Find.prepare P T args' = .ok f) ↔ ∃ f, Find.prepare P T args = .ok f) ∧
      ∀ f, Find.prepare P T args = .ok f → Find.prepare P T args' = .ok f := by
  refine ⟨prepare_ok_iff P T args, fun args' hp => ?_⟩
  have hto : ∀ f, Find.prepare P T args = .ok f → Find.prepare P T args' = .ok f := by
    intro f hf
    obtain ⟨ha, rfl⟩ := (prepare_ok_iff P T args f).1 hf
    exact (prepare_ok_iff P T args' _).2 ⟨ha.perm hp, (specFilter_perm P T ha.distinct hp).symm⟩
  refine ⟨⟨fun ⟨f, hf⟩ => ?_, fun ⟨f, hf⟩ => ⟨f, hto f hf⟩⟩, hto⟩
  obtain ⟨ha, rfl⟩ := (prepare_ok_iff P T args' f).1 hf
  exact ⟨_, (prepare_ok_iff P T args _).2 ⟨ha.perm hp.symm, rfl⟩⟩

/-- Times as numbers, with no layout that parses. -/
def natTime : TimeApi Nat := ⟨0, fun _ _ => none⟩

/-- `spinc find limit=5 user=alice`. -/
theorem prepare_correct_limitUser :
    Find.prepare Chain.testProto natTime ["limit=5", "user=alice"] = .ok ⟨"", [], "alice", 0, 0, 5, 0⟩ :=
  have ha : Accepts Chain.testProto natTime ["limit=5", "user=alice"] := by
    constructor <;> decide
  ((prepare_correct Chain.testProto natTime ["limit=5", "user=alice"]).1 _).2 ⟨ha, rfl⟩

end SpinCycle.Spinc
