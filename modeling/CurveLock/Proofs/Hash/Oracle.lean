import CurveLock.Hash.Oracle
import Mathlib.Init

/-!
# What the random oracle computes

The counted program returns the value of the oracle whatever the scratch, one counted step a block
(`Metered.run_oracleBelow`).
-/

namespace CurveLock

namespace Oracle

theorem value_lt (data : Bytes) {bound : Nat} (h : 0 < bound) : value data bound < bound :=
  Nat.mod_lt _ h

end Oracle

namespace Metered

@[simp] theorem run_sha256 (data : Bytes) (s : Scratch) :
    (sha256 data).run s = .ok (CurveLock.sha256 data) { s with opCount := s.opCount + 1 } := rfl

theorem run_oracleBlocks (data : Bytes) (n : Nat) :
    ∀ (i : Nat) (s : Scratch), (oracleBlocks data n i).run s =
      .ok ((List.range n).map fun j => Oracle.block (i + j) data)
        { s with opCount := s.opCount + n } := by
  induction n with
  | zero => intro i s; rfl
  | succ n ih =>
    intro i s
    have first : (List.range (n + 1)).map (fun j => Oracle.block (i + j) data) =
        Oracle.block i data :: (List.range n).map fun j => Oracle.block (i + 1 + j) data := by
      rw [List.range_succ_eq_map, List.map_cons, List.map_map, Nat.add_zero]
      refine congrArg (Oracle.block i data :: ·) (List.map_congr_left fun j _ => ?_)
      rw [Function.comp_apply, Nat.succ_eq_add_one, Nat.add_assoc, Nat.add_comm 1 j]
    rw [oracleBlocks, EStateM.run_bind, run_sha256, first]
    simp only [EStateM.run_bind, ih, EStateM.run_pure, Nat.add_assoc, Nat.add_comm 1 n]
    rfl

/-- **The program of the oracle.** -/
theorem run_oracleBelow (data : Bytes) (bound : Nat) (s : Scratch) :
    (oracleBelow data bound).run s =
      .ok (Oracle.value data bound)
        { s with opCount := s.opCount + Oracle.blockCount bound } := by
  rw [oracleBelow, EStateM.run_bind, run_oracleBlocks]
  simp only [Oracle.value, Nat.add_comm 1]
  rfl

end Metered

end CurveLock
