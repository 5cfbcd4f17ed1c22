import Mathlib.Data.List.Nodup
import Mathlib.Data.List.Perm.Subperm
import TargetQuiz.Chain.Search
import TargetQuiz.Proofs.Outcome

namespace TargetQuiz.Chain

/-- The states for chains of `n` of the picks. -/
inductive Grown (picks : List Pick) : Nat → Reached → Prop
  | start {pick : Pick} (h : pick ∈ picks) : Grown picks 1 (.ofPick pick)
  | link {n : Nat} {r r' : Reached} {pick : Pick} {op : Operator} (h : Grown picks n r)
      (hpick : pick ∈ picks) (hfree : r.used.testBit pick.2 = false)
      (hextend : r.extend? pick op = some r') : Grown picks (n + 1) r'

/-- A chain over some of the picks, no position twice. -/
structure Over (picks : List Pick) (chain : Chain) : Prop where
  mem : ∀ pick ∈ chain.picks, pick ∈ picks
  distinct : (chain.picks.map (·.2)).Nodup

namespace Reached

theorem extend?_eq_some_iff {r r' : Reached} {pick : Pick} {op : Operator} :
    r.extend? pick op = some r' ↔ ∃ value,
      op.apply r.value (Fraction.whole pick.1) = .ok value ∧
        r' = ⟨.link r.chain op pick, value, r.used ||| 1 <<< pick.2⟩ := by
  unfold extend?
  cases op.apply r.value (Fraction.whole pick.1) <;> simp [eq_comm]

theorem mem_successors_iff {picks : List Pick} {r r' : Reached} :
    r' ∈ r.successors picks ↔ ∃ pick ∈ picks, r.used.testBit pick.2 = false ∧
      ∃ op, r.extend? pick op = some r' := by
  simp only [successors, List.mem_flatMap]
  refine exists_congr fun pick => and_congr_right fun _ => ?_
  cases r.used.testBit pick.2 with
  | true => simp
  | false => simp [Operator.mem_all]

end Reached

theorem testBit_one_shiftLeft (i j : Nat) : (1 <<< i).testBit j = decide (i = j) := by
  rw [Nat.shiftLeft_eq, Nat.one_mul, Nat.testBit_two_pow]

namespace Grown

variable {picks : List Pick} {n : Nat} {r : Reached}

theorem value (h : Grown picks n r) : r.chain.value = .ok r.value := by
  induction h with
  | start => rfl
  | link _ _ _ hextend ih =>
    obtain ⟨value, happly, rfl⟩ := Reached.extend?_eq_some_iff.1 hextend
    exact bind_eq_ok_iff.2 ⟨_, ih, happly⟩

theorem length (h : Grown picks n r) : r.chain.picks.length = n := by
  induction h with
  | start => rfl
  | link _ _ _ hextend ih =>
    obtain ⟨value, _, rfl⟩ := Reached.extend?_eq_some_iff.1 hextend
    simp [Chain.picks, ih]

theorem used (h : Grown picks n r) (i : Nat) :
    r.used.testBit i = true ↔ i ∈ r.chain.picks.map (·.2) := by
  induction h with
  | start =>
    rw [Reached.ofPick, testBit_one_shiftLeft, decide_eq_true_iff]
    simp only [Chain.picks, List.map_cons, List.map_nil, List.mem_singleton]
    exact eq_comm
  | link _ _ _ hextend ih =>
    obtain ⟨value, _, rfl⟩ := Reached.extend?_eq_some_iff.1 hextend
    rw [Nat.testBit_or, Bool.or_eq_true, ih, testBit_one_shiftLeft, decide_eq_true_iff]
    simp only [Chain.picks, List.map_append, List.mem_append, List.map_cons, List.map_nil,
      List.mem_singleton]
    exact or_congr_right eq_comm

theorem chain_over (h : Grown picks n r) : r.chain.Over picks := by
  induction h with
  | start hpick =>
    refine ⟨?_, List.nodup_singleton _⟩
    simpa [Reached.ofPick, Chain.picks] using hpick
  | link h hpick hfree hextend ih =>
    have hfresh := mt (h.used _).2 (by simpa using hfree)
    obtain ⟨value, _, rfl⟩ := Reached.extend?_eq_some_iff.1 hextend
    constructor
    · rw [Chain.picks, List.forall_mem_append]
      exact ⟨ih.mem, by simpa using hpick⟩
    · rw [Chain.picks, List.map_append]
      exact ih.distinct.append (List.nodup_singleton _) (by simpa using hfresh)

end Grown

/-- Distinct positions pick a part of the list, with multiplicity. -/
theorem Over.operands_subperm {numbers : List Int64} {chain : Chain}
    (h : chain.Over numbers.zipIdx) : chain.operands.Subperm numbers := by
  obtain ⟨part, hperm, hsublist⟩ :=
    List.subperm_of_subset (List.Nodup.of_map _ h.distinct) h.mem
  have hnumbers := hsublist.map (·.1)
  rw [List.zipIdx_map_fst] at hnumbers
  exact ⟨part.map (·.1), hperm.map _, hnumbers⟩

def distinctKeys : List Reached → List Reached
  | [] => []
  | r :: rs => r :: (distinctKeys rs).filter (·.key != r.key)

theorem reverse_found_foldl_push (rs : List Reached) (level : Level) :
    (rs.foldl Level.push level).found.reverse =
      level.found.reverse ++ (distinctKeys rs).filter fun r => !level.seen.contains r.key := by
  induction rs generalizing level with
  | nil => simp [distinctKeys]
  | cons r rs ih =>
    rw [List.foldl_cons, ih, distinctKeys, Level.push]
    cases hseen : level.seen.contains r.key with
    | true =>
      -- A key in the table drops the state, and with it all later states of that key.
      rw [if_pos rfl, List.filter_cons_of_neg (by simp [hseen]), List.filter_filter]
      congr 1
      refine List.filter_congr fun s _ => ?_
      by_cases hkey : s.key = r.key <;> simp [hkey, hseen]
    | false =>
      rw [if_neg (by simp), List.filter_cons_of_pos (by simp [hseen]), List.filter_filter,
        List.reverse_cons, List.append_assoc, List.singleton_append]
      congr 2
      refine List.filter_congr fun s _ => ?_
      rw [Std.HashSet.contains_insert, Bool.not_or, Bool.and_comm, BEq.comm]
      rfl

/-- The table of the keys only makes the choice fast. -/
theorem firstOfKey_eq (rs : List Reached) : firstOfKey rs = distinctKeys rs := by
  rw [firstOfKey, reverse_found_foldl_push]
  simp

theorem mem_of_mem_distinctKeys {rs : List Reached} {r : Reached} (h : r ∈ distinctKeys rs) :
    r ∈ rs := by
  induction rs with
  | nil => exact h
  | cons s rs ih =>
    rcases List.mem_cons.1 h with rfl | h
    · exact List.mem_cons_self
    · exact List.mem_cons_of_mem _ (ih (List.mem_filter.1 h).1)

theorem grown_of_mem_nextLevel {picks : List Pick} {n : Nat} {level : List Reached}
    (hlevel : ∀ r ∈ level, Grown picks n r) :
    ∀ r ∈ nextLevel picks level, Grown picks (n + 1) r := by
  intro r hr
  rw [nextLevel, firstOfKey_eq] at hr
  obtain ⟨before, hbefore, hr⟩ := List.mem_flatMap.1 (mem_of_mem_distinctKeys hr)
  obtain ⟨pick, hpick, hfree, op, hextend⟩ := Reached.mem_successors_iff.1 hr
  exact .link (hlevel before hbefore) hpick hfree hextend

/-- What is found below a level is one of its descendants and has the value. -/
theorem grown_of_deepen {picks : List Pick} {target : Fraction} {depth n : Nat}
    {level : List Reached} {r : Reached} (hlevel : ∀ r ∈ level, Grown picks n r)
    (h : deepen picks target depth level = some r) :
    r.value = target ∧ ∃ m, n < m ∧ m ≤ n + depth ∧ Grown picks m r := by
  induction depth generalizing n level with
  | zero => simp [deepen] at h
  | succ depth ih =>
    have hnext := grown_of_mem_nextLevel hlevel
    rw [deepen] at h
    split at h
    · rename_i found hfind
      cases h
      refine ⟨by simpa using List.find?_some hfind, n + 1, by omega, by omega, ?_⟩
      exact hnext r (List.mem_of_find?_eq_some hfind)
    · obtain ⟨hvalue, m, hlt, hle, hgrown⟩ := ih hnext h
      exact ⟨hvalue, m, by omega, by omega, hgrown⟩

theorem search?_sound {numbers : List Int64} {target : Fraction} {limit : Nat} {chain : Chain}
    (h : search? numbers target limit = some chain) :
    chain.value = .ok target ∧ chain.Over numbers.zipIdx ∧
      2 ≤ chain.picks.length ∧ chain.picks.length ≤ limit := by
  unfold search? at h
  split at h
  · cases h
  · rename_i hsize
    obtain ⟨r, hdeepen, rfl⟩ := Option.map_eq_some_iff.1 h
    have hfirst : ∀ r ∈ numbers.zipIdx.map Reached.ofPick, Grown numbers.zipIdx 1 r := by
      intro r hr
      obtain ⟨pick, hpick, rfl⟩ := List.mem_map.1 hr
      exact .start hpick
    obtain ⟨rfl, m, hlt, hle, hgrown⟩ := grown_of_deepen hfirst hdeepen
    refine ⟨hgrown.value, hgrown.chain_over, ?_, ?_⟩
    · rw [hgrown.length]
      omega
    · rw [hgrown.length]
      omega

end TargetQuiz.Chain
