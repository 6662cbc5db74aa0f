import Kcr.Cache.State
import Mathlib.Data.List.Induction
import Mathlib.Data.List.TakeWhile

/-!
# Learning mode

`kcr_determinism.c`: results of one memory area are compared with the first one, and
after a hundred equal results the area is verified. The results counted so far are a
prefix of the history: all of it while learning, its first hundred results once verified,
and what came before the first mismatch once rejected.
-/

namespace Kcr

/-- `enum kcr_vma_state`. -/
inductive VmaState where
  | unverified
  | verified
  | rejected
deriving DecidableEq, Repr

/-- `struct vma_metadata` without its reference count. -/
@[ext] structure VmaMetadata where
  state : VmaState
  executionCount : U32
  resultHistory : Fin 4 → U64
  firstResult : U64

/-- Zero-initialised metadata. -/
def VmaMetadata.zeroed : VmaMetadata where
  state := .unverified
  executionCount := 0
  resultHistory _ := 0
  firstResult := 0

/-- The slot of the ring buffer that `count % 4` selects. -/
def ringSlot (count : Nat) : Fin 4 := ⟨count % 4, Nat.mod_lt _ (by decide)⟩

/-- `verify_deterministic`; `none` is a null pointer. -/
def verifyDeterministic (metadata : Option VmaMetadata) (currentResult : U64) :
    Bool × Option VmaMetadata :=
  match metadata with
  | none => (false, none)
  | some metadata =>
      match metadata.state with
      | .unverified =>
          if metadata.executionCount ≠ 0 ∧ metadata.firstResult ≠ currentResult then
            (false, some { metadata with state := .rejected })
          else
            let metadata := if metadata.executionCount = 0 then
              { metadata with firstResult := currentResult } else metadata
            let slot := ringSlot metadata.executionCount.toNat
            let metadata := { metadata with
              resultHistory := Function.update metadata.resultHistory slot currentResult
              executionCount := metadata.executionCount + 1 }
            let metadata := if metadata.executionCount ≥ 100 then
              { metadata with state := .verified } else metadata
            (true, some metadata)
      | .verified => (true, some metadata)
      | .rejected => (false, some metadata)

/-! ## Histories -/

/-- One call, with the answers of the calls before it. -/
def feedOne (sofar : List Bool × Option VmaMetadata) (result : U64) :
    List Bool × Option VmaMetadata :=
  let (answer, metadata) := verifyDeterministic sofar.2 result
  (sofar.1 ++ [answer], metadata)

/-- Feed results one by one to zero-initialised metadata. -/
def feed (results : List U64) : List Bool × Option VmaMetadata :=
  results.foldl feedOne ([], some .zeroed)

/-- The first `count` results equal the first one. -/
def Agree (results : List U64) (count : Nat) : Prop :=
  ∀ result ∈ results.take count, results.head? = some result

/-- The results before the first mismatch, as long as they are compared. -/
def accepted (results : List U64) : List U64 :=
  (results.takeWhile fun result => results.head? == some result).take 100

/-- What the learner should have answered and recorded after a history. -/
structure Learns (results : List U64) (answers : List Bool) (metadata : VmaMetadata) : Prop where
  answered : answers.length = results.length ∧
    ∀ i (bound : i < answers.length), answers[i] = true ↔ Agree results (min (i + 1) 100)
  rejected : metadata.state = .rejected ↔ ¬ Agree results (min results.length 100)
  verified : metadata.state = .verified ↔ 100 ≤ results.length ∧ Agree results 100
  unverified : metadata.state = .unverified ↔
    Agree results (min results.length 100) ∧ ¬ (100 ≤ results.length ∧ Agree results 100)
  count : metadata.executionCount.toNat = (accepted results).length
  bounded : metadata.executionCount.toNat ≤ 100
  first : ∀ result ∈ results.head?, metadata.firstResult = result
  history : ∀ j : Fin 4, j.val < min metadata.executionCount.toNat 4 →
    ∃ i, (accepted results)[i]? = some (metadata.resultHistory j) ∧ i % 4 = j.val ∧
      ∀ k, k < (accepted results).length → k % 4 = j.val → k ≤ i
  settled : metadata.state ≠ .unverified →
    ∀ later, (feed (results ++ later)).2 = some metadata

/-! ## The results counted so far -/

/-- The metadata has recorded these results, all equal. -/
structure Recorded (counted : List U64) (metadata : VmaMetadata) : Prop where
  count : metadata.executionCount.toNat = counted.length
  same : ∀ result ∈ counted, result = metadata.firstResult
  ring : ∀ i (bound : i < counted.length), counted.length ≤ i + 4 →
    metadata.resultHistory (ringSlot i) = counted[i]

/-- How a history divides into the results counted and the rest. -/
inductive Learned (results : List U64) (metadata : VmaMetadata) : Prop where
  | learning (state : metadata.state = .unverified) (short : results.length < 100)
      (recorded : Recorded results metadata)
  | verified (state : metadata.state = .verified) (counted later : List U64)
      (split : results = counted ++ later) (full : counted.length = 100)
      (recorded : Recorded counted metadata)
  | rejected (state : metadata.state = .rejected) (counted : List U64) (mismatch : U64)
      (later : List U64) (split : results = counted ++ mismatch :: later)
      (nonempty : counted ≠ []) (short : counted.length < 100)
      (differs : mismatch ≠ metadata.firstResult) (recorded : Recorded counted metadata)

section Step

variable {counted results : List U64} {metadata : VmaMetadata} {result : U64}

theorem Recorded.initial : Recorded [] .zeroed where
  count := rfl
  same _ member := by cases member
  ring _ bound := absurd bound (Nat.not_lt_zero _)

/-- Counting one more result that equals the first one. -/
theorem Recorded.snoc (recorded : Recorded counted metadata) (short : counted.length < 100)
    (agrees : counted ≠ [] → result = metadata.firstResult) (state : VmaState) :
    Recorded (counted ++ [result])
      { state := state
        executionCount := metadata.executionCount + 1
        resultHistory := Function.update metadata.resultHistory
          (ringSlot metadata.executionCount.toNat) result
        firstResult := if counted = [] then result else metadata.firstResult } := by
  refine ⟨?_, ?_, ?_⟩
  · have one : (1 : U32).toNat = 1 := rfl
    rw [List.length_append, List.length_singleton, BitVec.toNat_add, recorded.count, one]
    omega
  · intro other member
    by_cases none : counted = []
    · subst none
      simpa using member
    · rw [if_neg none]
      rcases List.mem_append.mp member with earlier | last
      · exact recorded.same other earlier
      · rw [List.mem_singleton.mp last]
        exact agrees none
  · intro i bound recent
    rw [List.length_append, List.length_singleton] at bound recent
    rw [recorded.count]
    by_cases last : i = counted.length
    · subst last
      simp
    · have earlier : i < counted.length := by omega
      have elsewhere : ringSlot i ≠ ringSlot counted.length := by
        intro same
        have residues : i % 4 = counted.length % 4 := congrArg Fin.val same
        omega
      have kept := recorded.ring i earlier (by omega)
      simpa [Function.update_of_ne elsewhere, List.getElem_append_left earlier] using kept

/-- A result that is counted: the call compares it, records it and looks at the count. -/
theorem verifyDeterministic_counts (state : metadata.state = .unverified)
    (agrees : ¬ (metadata.executionCount ≠ 0 ∧ metadata.firstResult ≠ result)) :
    verifyDeterministic (some metadata) result = (true, some
      { state := if metadata.executionCount + 1 ≥ 100 then .verified else .unverified
        executionCount := metadata.executionCount + 1
        resultHistory := Function.update metadata.resultHistory
          (ringSlot metadata.executionCount.toNat) result
        firstResult := if metadata.executionCount = 0 then result else metadata.firstResult }) := by
  simp only [verifyDeterministic, state, if_neg agrees]
  by_cases first : metadata.executionCount = 0
  · simp only [if_pos first]
    split <;> simp_all
  · simp only [if_neg first]
    split <;> simp_all

/-- One call takes the history one result further. -/
theorem Learned.step (learned : Learned results metadata) (result : U64) :
    ∃ metadata', (verifyDeterministic (some metadata) result).2 = some metadata' ∧
      Learned (results ++ [result]) metadata' := by
  cases learned with
  | verified state counted later split full recorded =>
      exact ⟨metadata, by simp [verifyDeterministic, state],
        .verified state counted (later ++ [result]) (by simp [split]) full recorded⟩
  | rejected state counted mismatch later split nonempty short differs recorded =>
      exact ⟨metadata, by simp [verifyDeterministic, state],
        .rejected state counted mismatch (later ++ [result]) (by simp [split]) nonempty short
          differs recorded⟩
  | learning state short recorded =>
      have started : metadata.executionCount = 0 ↔ results = [] := by
        rw [← List.length_eq_zero_iff, ← recorded.count]
        exact BitVec.toNat_eq
      by_cases mismatch : metadata.executionCount ≠ 0 ∧ metadata.firstResult ≠ result
      · refine ⟨{ metadata with state := .rejected }, ?_, ?_⟩
        · simp only [verifyDeterministic, state, if_pos mismatch]
        · exact .rejected rfl results result [] rfl (fun none => mismatch.1 (started.mpr none))
            short (Ne.symm mismatch.2) ⟨recorded.count, recorded.same, recorded.ring⟩
      · have agrees : results ≠ [] → result = metadata.firstResult := by
          intro some
          by_contra other
          exact mismatch ⟨fun none => some (started.mp none), Ne.symm other⟩
        refine ⟨_, congrArg Prod.snd (verifyDeterministic_counts state mismatch), ?_⟩
        have next := recorded.snoc short agrees
        simp only [← started] at next
        have count : (metadata.executionCount + 1).toNat = results.length + 1 := by
          simpa using (next .unverified).count
        have full : metadata.executionCount + 1 ≥ 100 ↔ results.length + 1 = 100 := by
          have hundred : (100 : U32).toNat = 100 := rfl
          rw [ge_iff_le, BitVec.le_def, count, hundred]
          omega
        by_cases last : results.length + 1 = 100
        · exact .verified (if_pos (full.mpr last)) (results ++ [result]) [] (by simp)
            (by simpa using last) (next _)
        · exact .learning (if_neg fun reached => last (full.mp reached)) (by simp; omega) (next _)

/-- A call says no exactly when it leaves the area rejected. -/
theorem verifyDeterministic_answer {metadata' : VmaMetadata}
    (left : (verifyDeterministic (some metadata) result).2 = some metadata') :
    (verifyDeterministic (some metadata) result).1 = true ↔ metadata'.state ≠ .rejected := by
  cases state : metadata.state with
  | verified | rejected =>
      simp only [verifyDeterministic, state, Option.some.injEq] at left ⊢
      simp [← left, state]
  | unverified =>
      by_cases mismatch : metadata.executionCount ≠ 0 ∧ metadata.firstResult ≠ result
      · simp only [verifyDeterministic, state, if_pos mismatch, Option.some.injEq] at left ⊢
        simp [← left]
      · rw [verifyDeterministic_counts state mismatch] at left ⊢
        obtain rfl := Option.some.inj left
        simp only [true_iff]
        split <;> exact nofun

/-- Settled metadata stay as they are. -/
theorem verifyDeterministic_settled (settled : metadata.state ≠ .unverified) :
    (verifyDeterministic (some metadata) result).2 = some metadata := by
  cases state : metadata.state with
  | unverified => exact absurd state settled
  | verified | rejected => simp [verifyDeterministic, state]

end Step

/-! ## What they say about the history -/

section Counted

variable {counted later results : List U64} {metadata : VmaMetadata}

/-- Agreement only looks at a prefix. -/
theorem agree_append {count : Nat} (inside : count ≤ counted.length) :
    Agree (counted ++ later) count ↔ Agree counted count := by
  unfold Agree
  rw [List.take_append_of_le_length inside]
  cases counted with
  | nil => simp
  | cons first rest => simp

theorem Recorded.head? (recorded : Recorded counted metadata) (nonempty : counted ≠ []) :
    (counted ++ later).head? = some metadata.firstResult := by
  cases counted with
  | nil => exact absurd rfl nonempty
  | cons first rest => simp [recorded.same first List.mem_cons_self]

theorem Recorded.agree (recorded : Recorded counted metadata) (count : Nat) :
    Agree counted count := by
  intro result member
  have inside := List.mem_of_mem_take member
  have head : (counted ++ []).head? = some metadata.firstResult :=
    recorded.head? (List.ne_nil_of_mem inside)
  rw [List.append_nil] at head
  rw [head, recorded.same result inside]

/-- A result that differs from those counted before it ends the agreement. -/
theorem Recorded.not_agree (recorded : Recorded counted metadata) (nonempty : counted ≠ [])
    {mismatch : U64} (differs : mismatch ≠ metadata.firstResult) {count : Nat}
    (reaches : counted.length < count) : ¬ Agree (counted ++ mismatch :: later) count := by
  intro agree
  have member : mismatch ∈ (counted ++ mismatch :: later).take count := by
    rw [List.take_append]
    apply List.mem_append_right _
    obtain ⟨more, sum⟩ : ∃ more, count - counted.length = more + 1 :=
      ⟨count - counted.length - 1, by omega⟩
    simp [sum]
  have head := agree mismatch member
  rw [recorded.head? nonempty] at head
  exact differs (Option.some.inj head).symm

/-- The results counted are those accepted before the first mismatch. -/
theorem Recorded.accepted (recorded : Recorded counted metadata) (short : counted.length ≤ 100)
    (stops : counted.length = 100 ∨ later = [] ∨
      counted ≠ [] ∧ ∃ mismatch rest, later = mismatch :: rest ∧ mismatch ≠ metadata.firstResult) :
    Kcr.accepted (counted ++ later) = counted := by
  by_cases none : counted = []
  · subst none
    obtain full | rfl | ⟨some, _⟩ := stops
    · simp at full
    · rfl
    · exact absurd rfl some
  · have agrees : ∀ result ∈ counted, ((counted ++ later).head? == some result) = true := by
      intro result member
      rw [recorded.head? none, recorded.same result member]
      exact beq_self_eq_true _
    unfold Kcr.accepted
    rw [List.takeWhile_append_of_pos agrees]
    obtain full | rfl | ⟨_, mismatch, rest, rfl, differs⟩ := stops
    · rw [← full, List.take_left]
    · rw [List.takeWhile_nil, List.append_nil, List.take_of_length_le short]
    · rw [List.takeWhile_cons_of_neg, List.append_nil, List.take_of_length_le short]
      rw [recorded.head? none]
      simpa using Ne.symm differs

/-- The counted results in a history, in one form for all three states. -/
theorem Learned.accepted (learned : Learned results metadata) :
    Recorded (Kcr.accepted results) metadata ∧ (Kcr.accepted results).length ≤ 100 ∧
      ∀ result ∈ results.head?, metadata.firstResult = result := by
  obtain ⟨counted, later, rfl, recorded, short, same, nonempty⟩ : ∃ counted later,
      results = counted ++ later ∧ Recorded counted metadata ∧ counted.length ≤ 100 ∧
      Kcr.accepted (counted ++ later) = counted ∧ (counted ++ later ≠ [] → counted ≠ []) := by
    cases learned with
    | learning state short recorded =>
        exact ⟨results, [], by simp, recorded, short.le, recorded.accepted short.le (.inr (.inl rfl)),
          by simp⟩
    | verified state counted later split full recorded =>
        exact ⟨counted, later, split, recorded, full.le, recorded.accepted full.le (.inl full),
          fun _ none => by simp [none] at full⟩
    | rejected state counted mismatch later split nonempty short differs recorded =>
        exact ⟨counted, mismatch :: later, split, recorded, short.le, recorded.accepted short.le
          (.inr (.inr ⟨nonempty, mismatch, later, rfl, differs⟩)), fun _ => nonempty⟩
  rw [same]
  refine ⟨recorded, short, fun result first => ?_⟩
  by_cases empty : counted ++ later = []
  · simp [empty] at first
  · rw [recorded.head? (nonempty empty)] at first
    exact Option.some.inj first

/-- The state tells whether the compared results agree and whether there are enough. -/
theorem Learned.rejected_iff (learned : Learned results metadata) :
    metadata.state = .rejected ↔ ¬ Agree results (min results.length 100) := by
  cases learned with
  | learning state short recorded => simp [state, recorded.agree]
  | verified state counted later split full recorded =>
      subst split
      have inside : min (counted ++ later).length 100 ≤ counted.length := by omega
      rw [agree_append inside]
      simp [state, recorded.agree]
  | rejected state counted mismatch later split nonempty short differs recorded =>
      subst split
      have reaches : counted.length < min (counted ++ mismatch :: later).length 100 := by
        simp
        omega
      simpa [state] using recorded.not_agree nonempty differs reaches

theorem Learned.verified_iff (learned : Learned results metadata) :
    metadata.state = .verified ↔ 100 ≤ results.length ∧ Agree results 100 := by
  cases learned with
  | learning state short recorded =>
      have few : ¬ 100 ≤ results.length := by omega
      simp [state, few]
  | verified state counted later split full recorded =>
      subst split
      simp [state, agree_append full.ge, recorded.agree, full]
  | rejected state counted mismatch later split nonempty short differs recorded =>
      subst split
      simp [state, recorded.not_agree nonempty differs short]

end Counted

/-! ## All histories -/

section Feed

variable {results : List U64} {metadata : VmaMetadata}

theorem feed_snoc (results : List U64) (result : U64) :
    feed (results ++ [result]) = feedOne (feed results) result := by
  simp [feed]

/-- Feeding a history leaves metadata that have learned it. -/
theorem learned_feed (results : List U64) :
    ∃ metadata, (feed results).2 = some metadata ∧ Learned results metadata := by
  induction results using List.reverseRecOn with
  | nil => exact ⟨.zeroed, rfl, .learning rfl (by simp) .initial⟩
  | append_singleton results result ih =>
      obtain ⟨metadata, left, learned⟩ := ih
      obtain ⟨metadata', left', learned'⟩ := learned.step result
      exact ⟨metadata', by rw [feed_snoc, feedOne, left]; exact left', learned'⟩

/-- The answers say, call by call, whether the compared results agree so far. -/
theorem answers_feed (results : List U64) : (feed results).1.length = results.length ∧
    ∀ i (bound : i < (feed results).1.length),
      (feed results).1[i] = true ↔ Agree results (min (i + 1) 100) := by
  induction results using List.reverseRecOn with
  | nil => exact ⟨rfl, fun i bound => absurd bound (Nat.not_lt_zero i)⟩
  | append_singleton results result ih =>
      obtain ⟨length, answers⟩ := ih
      obtain ⟨metadata, left, learned⟩ := learned_feed results
      obtain ⟨metadata', left', learned'⟩ := learned.step result
      have shape : (feed (results ++ [result])).1 =
          (feed results).1 ++ [(verifyDeterministic (some metadata) result).1] := by
        rw [feed_snoc, feedOne, left]
      refine ⟨by simp [shape, length], fun i bound => ?_⟩
      simp only [shape]
      rw [shape, List.length_append, List.length_singleton] at bound
      by_cases last : i < (feed results).1.length
      · rw [List.getElem_append_left last, answers i last, agree_append]
        omega
      · have atEnd : i = results.length := by omega
        rw [List.getElem_append_right (by omega)]
        have answer := verifyDeterministic_answer left'
        rw [Ne, learned'.rejected_iff, not_not] at answer
        simpa [atEnd] using answer

theorem feed_settled (left : (feed results).2 = some metadata)
    (settled : metadata.state ≠ .unverified) (later : List U64) :
    (feed (results ++ later)).2 = some metadata := by
  induction later using List.reverseRecOn with
  | nil => rw [List.append_nil, left]
  | append_singleton later result ih =>
      rw [← List.append_assoc, feed_snoc, feedOne, ih]
      exact verifyDeterministic_settled settled

/-- The ring buffer holds the last counted results. -/
theorem Recorded.history {counted : List U64} (recorded : Recorded counted metadata) (j : Fin 4)
    (filled : j.val < min metadata.executionCount.toNat 4) :
    ∃ i, counted[i]? = some (metadata.resultHistory j) ∧ i % 4 = j.val ∧
      ∀ k, k < counted.length → k % 4 = j.val → k ≤ i := by
  rw [recorded.count] at filled
  obtain ⟨i, bound, recent, residue⟩ : ∃ i, i < counted.length ∧ counted.length ≤ i + 4 ∧
      i % 4 = j.val :=
    ⟨counted.length - 1 - (counted.length - 1 - j.val) % 4, by omega, by omega, by omega⟩
  have slot : ringSlot i = j := Fin.ext residue
  refine ⟨i, ?_, residue, fun k inside same => by omega⟩
  rw [List.getElem?_eq_getElem bound, ← recorded.ring i bound recent, slot]

end Feed

/-- On every history the learner answers and records what it should. -/
theorem verifyDeterministic_learns (results : List U64) :
    ∃ metadata, (feed results).2 = some metadata ∧
      Learns results (feed results).1 metadata := by
  obtain ⟨metadata, left, learned⟩ := learned_feed results
  obtain ⟨recorded, short, first⟩ := learned.accepted
  have rejected := learned.rejected_iff
  have verified := learned.verified_iff
  refine ⟨metadata, left, ?_⟩
  constructor
  · exact answers_feed results
  · exact rejected
  · exact verified
  · rw [← verified, ← not_iff_not, ← not_not (a := Agree results _), ← rejected]
    cases metadata.state <;> simp
  · exact recorded.count
  · rw [recorded.count]
    exact short
  · exact first
  · exact recorded.history
  · exact feed_settled left

end Kcr
