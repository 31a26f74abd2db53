import CurveLock.Curve.Named
import CurveLock.Proofs.Hash.Expansion

/-!
# No input is hashed twice

The number of a block stands before the data in as few bytes as possible, and nothing marks where it
ends.  The inputs of one run of the oracle differ all the same (`Oracle.nodup_inputs`).  The inputs
of different runs differ as long as every number fits into one byte, which it does for bounds of up
to 65024 binary digits (`Oracle.inputs_separated`).  For longer bounds they need not
(`Oracle.inputs_overlap`).
-/

namespace CurveLock

namespace Oracle

theorem blockInput_injective (data : Bytes) : Function.Injective fun i => blockInput i data :=
  fun _ _ h => Bytes.ofNat_injective (List.append_cancel_right h)

/-- **The blocks of one run have different inputs**, however many there are. -/
theorem nodup_inputs (data : Bytes) (k : ℕ) : (inputs data k).Nodup := by
  have hinjective : Function.Injective fun i => blockInput (i + 1) data :=
    (blockInput_injective data).comp (add_left_injective 1)
  exact List.nodup_range.map hinjective

theorem mem_inputs {data x : Bytes} {k : ℕ} :
    x ∈ inputs data k ↔ ∃ i, 1 ≤ i ∧ i ≤ k ∧ blockInput i data = x := by
  rw [inputs, List.mem_map]
  constructor
  · rintro ⟨i, hi, rfl⟩
    exact ⟨i + 1, by omega, List.mem_range.1 hi, rfl⟩
  · rintro ⟨i, hpos, hle, rfl⟩
    obtain ⟨i, rfl⟩ := Nat.exists_eq_add_of_le' hpos
    exact ⟨i, List.mem_range.2 hle, rfl⟩

/-! ### Numbers of one byte -/

theorem byteLength_eq_one {i : ℕ} (hpos : 0 < i) (hlt : i < 256) : byteLength i = 1 := by
  have hle : byteLength i ≤ 1 := byteLength_le_iff.2 (by omega)
  have hne : ¬ byteLength i ≤ 0 := by
    rw [byteLength_le_iff]
    omega
  omega

/-- Numbers of one byte end where the data begins. -/
theorem blockInput_eq_iff {i j : ℕ} (hi : 0 < i) (hi' : i < 256) (hj : 0 < j) (hj' : j < 256)
    {data data' : Bytes} : blockInput i data = blockInput j data' ↔ i = j ∧ data = data' := by
  constructor
  · intro h
    have hlength : (Bytes.ofNat i).length = (Bytes.ofNat j).length := by
      rw [Bytes.length_ofNat, Bytes.length_ofNat, byteLength_eq_one hi hi',
        byteLength_eq_one hj hj']
    obtain ⟨hnumber, hdata⟩ := List.append_inj h hlength
    exact ⟨Bytes.ofNat_injective hnumber, hdata⟩
  · rintro ⟨rfl, rfl⟩
    rfl

theorem blockCount_le_of_bitLength_le {n : ℕ} (h : bitLength n ≤ 65024) : blockCount n ≤ 255 := by
  rw [blockCount_le_iff]
  omega

theorem bitLength_prime_le (c : Curve) : bitLength c.prime ≤ 65024 := by
  cases c <;> decide +kernel

/-- **Different blocks have different inputs.**  With a positive bound the oracle hashes the inputs
of its blocks, which are pairwise distinct.  For bounds of at most 65024 binary digits there are at
most 255 blocks, and the inputs of two blocks, of one run or of two, agree only if the blocks have
the same number and the data is the same.  The primes of the curves are such bounds. -/
theorem inputs_separated :
    (∀ {d : Datum} {data : Bytes} {n : ℕ}, d.bytes? = some data → 0 < n →
      Metered.oracle d (.int n) = (do
        let digests ← (inputs data (blockCount n)).mapM Metered.sha256
        return combine n (digests.map Bytes.toNat)) ∧
      (inputs data (blockCount n)).Nodup) ∧
    (∀ {n n' : ℕ}, bitLength n ≤ 65024 → bitLength n' ≤ 65024 →
      blockCount n ≤ 255 ∧
      ∀ i j, 1 ≤ i → i ≤ blockCount n → 1 ≤ j → j ≤ blockCount n' → ∀ data data' : Bytes,
        blockInput i data = blockInput j data' ↔ i = j ∧ data = data') ∧
    ∀ c : Curve, bitLength c.prime ≤ 65024 := by
  refine ⟨fun hd hn => ⟨Metered.oracle_eq hd hn, nodup_inputs _ _⟩, ?_, bitLength_prime_le⟩
  intro n n' hn hn'
  have hcount := blockCount_le_of_bitLength_le hn
  have hcount' := blockCount_le_of_bitLength_le hn'
  refine ⟨hcount, fun i j hi hi' hj hj' data data' => ?_⟩
  exact blockInput_eq_iff hi (by omega) hj (by omega)

theorem inputs_separated_widest :
    (inputs [7] (blockCount (2 ^ 65023))).Nodup ∧ blockCount (2 ^ 65023) = 255 ∧
      (∀ data : Bytes, blockInput 255 data ≠ blockInput 4 (0 :: data)) ∧
      bitLength Curve.secp521r1.prime = 521 := by
  have hwide : bitLength (2 ^ 65023) = 65024 := by decide +kernel
  have hcount : blockCount (2 ^ 65023) = 255 := by decide +kernel
  have hprime : blockCount Curve.secp521r1.prime = 4 := by decide +kernel
  obtain ⟨one, two, primes⟩ := inputs_separated
  have hone := one (d := .bytes [7]) rfl (n := 2 ^ 65023) (by decide +kernel)
  have htwo :=
    (two hwide.le (primes .secp521r1)).2 255 4 (by decide) hcount.ge (by decide) hprime.ge
  refine ⟨hone.2, hcount, fun data h => ?_, by decide +kernel⟩
  exact absurd ((htwo data (0 :: data)).1 h).1 (by decide)

/-- **From block 256 on inputs are shared.**  A bound of more than 65024 binary digits asks for
block 256, and what is hashed for it is hashed as well for block 1 of longer data. -/
theorem inputs_overlap {n : ℕ} (h : 65024 < bitLength n) (data : Bytes) (n' : ℕ) :
    ∃ x, x ∈ inputs data (blockCount n) ∧ x ∈ inputs (0 :: data) (blockCount n') := by
  have hlast : ¬ blockCount n ≤ 255 := by
    rw [blockCount_le_iff]
    omega
  have hfirst : ¬ blockCount n' ≤ 0 := by
    rw [blockCount_le_iff]
    omega
  refine ⟨blockInput 256 data, mem_inputs.2 ⟨256, by omega, by omega, rfl⟩,
    mem_inputs.2 ⟨1, le_rfl, by omega, ?_⟩⟩
  -- the second byte of 256 can as well begin the data
  have two : Bytes.ofNat 256 = Bytes.ofNat 1 ++ [0] := by decide +kernel
  rw [blockInput, blockInput, two, List.append_assoc]
  rfl

end Oracle

end CurveLock
