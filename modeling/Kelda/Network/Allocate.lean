import Kelda.Lib.Prefix
import Kelda.Network.IP

/-! The search of allocateIP. It goes once around the addresses of the subnet,
from a random one on. -/
namespace Kelda.Network

open Net

section Words

theorem or_eq_add {x y k : Nat} (hy : y < 2 ^ k) : x * 2 ^ k ||| y = x * 2 ^ k + y := by
  rw [Nat.mul_comm, Nat.two_pow_add_eq_or_of_lt hy]

theorem byte_mul_mod {x k : Nat} (hx : x < 2 ^ 8) (hk : k ≤ 24) :
    x * 2 ^ k % 2 ^ 32 = x * 2 ^ k := by
  apply Nat.mod_eq_of_lt
  calc x * 2 ^ k < 2 ^ 8 * 2 ^ k := Nat.mul_lt_mul_of_pos_right hx (Nat.two_pow_pos k)
    _ ≤ 2 ^ 8 * 2 ^ 24 := Nat.mul_le_mul_left _ (Nat.pow_le_pow_right (by decide) hk)
    _ = 2 ^ 32 := by decide

theorem toNat_uint32 {bytes : List UInt8} (h : bytes.length = 4) :
    ∃ v, uint32 bytes = .ok v ∧ v.toNat = number bytes := by
  match bytes, h with
  | [a, b, c, d], _ =>
      refine ⟨_, rfl, ?_⟩
      have ha := a.toNat_lt
      have hb := b.toNat_lt
      have hc := c.toNat_lt
      have hd := d.toNat_lt
      have hA := byte_mul_mod ha (Nat.le_refl 24)
      have hB := byte_mul_mod hb (by decide : 16 ≤ 24)
      have hC := byte_mul_mod hc (by decide : 8 ≤ 24)
      have hAB : a.toNat * 2 ^ 24 ||| b.toNat * 2 ^ 16 = (a.toNat * 2 ^ 8 + b.toNat) * 2 ^ 16 := by
        rw [or_eq_add (by omega)]
        omega
      have hABC : (a.toNat * 2 ^ 8 + b.toNat) * 2 ^ 16 ||| c.toNat * 2 ^ 8 =
          ((a.toNat * 2 ^ 8 + b.toNat) * 2 ^ 8 + c.toNat) * 2 ^ 8 := by
        rw [or_eq_add (by omega)]
        omega
      simp only [UInt32.toNat_or, UInt32.toNat_shiftLeft, UInt8.toNat_toUInt32, Nat.shiftLeft_eq,
        UInt32.reduceToNat, Nat.reduceMod, hA, hB, hC, hAB, hABC, or_eq_add hd, number,
        List.length_cons, List.length_nil]
      omega

/-- The four bytes of a number are those of the address. -/
theorem putUint32_eq (v : UInt32) : putUint32 v = ofNat v.toNat := by
  have hByte : ∀ k : UInt32, k.toNat < 32 →
      (v >>> k).toUInt8.toFin.val = v.toNat / 2 ^ k.toNat % 256 := by
    intro k hk
    change (v >>> k).toUInt8.toNat = _
    rw [UInt32.toNat_toUInt8, UInt32.toNat_shiftRight, Nat.mod_eq_of_lt hk,
      Nat.shiftRight_eq_div_pow]
  have hLast : v.toUInt8.toFin.val = v.toNat % 256 := UInt32.toNat_toUInt8 v
  simp only [putUint32, ofNat, IPv4.mk.injEq, Fin.ext_iff, Fin.val_ofNat, hLast,
    hByte 24 (by decide), hByte 16 (by decide), hByte 8 (by decide), UInt32.reduceToNat, and_self]

end Words

section Masks

/-- A contiguous mask that leaves so many bits to the hosts. -/
def HostBits (mask : UInt32) (bits : Nat) : Prop := (~~~mask).toNat = 2 ^ bits - 1

variable {mask : UInt32} {bits : Nat}

theorem HostBits.bits_le (h : HostBits mask bits) : bits ≤ 32 := by
  have hLt : 2 ^ bits - 1 < 2 ^ 32 := h ▸ (~~~mask).toNat_lt
  have hPow : 2 ^ bits ≤ 2 ^ 32 := by omega
  exact (Nat.pow_le_pow_iff_right (by decide)).mp hPow

theorem HostBits.toNat_host (h : HostBits mask bits) (v : UInt32) :
    (v &&& ~~~mask).toNat = v.toNat % 2 ^ bits := by
  rw [UInt32.toNat_and, h, Nat.and_two_pow_sub_one_eq_mod]

theorem HostBits.toNat_mask (h : HostBits mask bits) :
    mask.toNat = (2 ^ (32 - bits) - 1) <<< bits := by
  have hPow : 2 ^ (32 - bits) * 2 ^ bits = 2 ^ 32 := by
    rw [← pow_add, Nat.sub_add_cancel h.bits_le]
  have hNot : 2 ^ 32 - 1 - mask.toNat = 2 ^ bits - 1 := (UInt32.toNat_not mask).symm.trans h
  have hLt := mask.toNat_lt
  have hPos := Nat.two_pow_pos bits
  rw [Nat.shiftLeft_eq, Nat.sub_mul, hPow, Nat.one_mul]
  omega

/-- The mask clears the bits of the hosts. -/
theorem HostBits.toNat_network (h : HostBits mask bits) (v : UInt32) :
    (v &&& mask).toNat = v.toNat / 2 ^ bits * 2 ^ bits := by
  rw [UInt32.toNat_and, h.toNat_mask]
  apply Nat.eq_of_testBit_eq
  intro i
  simp only [Nat.testBit_and, Nat.testBit_shiftLeft, Nat.testBit_two_pow_sub_one,
    Nat.testBit_mul_two_pow, Nat.testBit_div_two_pow]
  by_cases hi : bits ≤ i
  · have hBit : v.toNat.testBit i = true → i < 32 := by
      intro hTrue
      by_contra hGe
      have hPow : v.toNat < 2 ^ i :=
        v.toNat_lt.trans_le (Nat.pow_le_pow_right (by decide) (Nat.not_lt.mp hGe))
      rw [Nat.testBit_lt_two_pow hPow] at hTrue
      cases hTrue
    rw [Nat.sub_add_cancel hi, Bool.eq_iff_iff]
    simp only [ge_iff_le, hi, decide_true, Bool.true_and, Bool.and_eq_true, decide_eq_true_eq]
    refine ⟨And.left, fun hTrue => ⟨hTrue, ?_⟩⟩
    have := hBit hTrue
    omega
  · simp [hi]

end Masks

section Hosts

variable {mask network randStart : UInt32} {bits : Nat}

/-- The text of an address of the subnet, counted around its end. -/
def hostText (network : UInt32) (bits k : Nat) : String :=
  (ofNat (network.toNat / 2 ^ bits * 2 ^ bits + k % 2 ^ bits)).text

theorem HostBits.candidate_eq (h : HostBits mask bits) (network randStart offset : UInt32) :
    candidate network mask randStart offset =
      hostText network bits (randStart.toNat + offset.toNat) := by
  have hDvd : 2 ^ bits ∣ 2 ^ 32 := pow_dvd_pow 2 h.bits_le
  rw [candidate, putUint32_eq, UInt32.toNat_or, h.toNat_host, h.toNat_network, UInt32.toNat_add,
    Nat.mod_mod_of_dvd _ hDvd, Nat.or_comm, or_eq_add (Nat.mod_lt _ (Nat.two_pow_pos bits))]
  rfl

theorem host_lt (hBits : bits ≤ 32) (network : UInt32) (k : Nat) :
    network.toNat / 2 ^ bits * 2 ^ bits + k % 2 ^ bits < 2 ^ 32 := by
  have hPow : 2 ^ 32 = 2 ^ (32 - bits) * 2 ^ bits := by
    rw [← pow_add, Nat.sub_add_cancel hBits]
  have hHost := Nat.mod_lt k (Nat.two_pow_pos bits)
  have hNetwork : network.toNat / 2 ^ bits < 2 ^ (32 - bits) := by
    rw [Nat.div_lt_iff_lt_mul (Nat.two_pow_pos bits), ← hPow]
    exact network.toNat_lt
  calc network.toNat / 2 ^ bits * 2 ^ bits + k % 2 ^ bits
      < (network.toNat / 2 ^ bits + 1) * 2 ^ bits := by
        rw [Nat.add_mul, Nat.one_mul]
        omega
    _ ≤ 2 ^ (32 - bits) * 2 ^ bits := Nat.mul_le_mul_right _ hNetwork
    _ = 2 ^ 32 := hPow.symm

theorem hostText_inj (hBits : bits ≤ 32) {k k' : Nat}
    (h : hostText network bits k = hostText network bits k') : k % 2 ^ bits = k' % 2 ^ bits := by
  have hNumber := congrArg toNat (IPv4.text_inj.mp h)
  rw [toNat_ofNat (host_lt hBits network k), toNat_ofNat (host_lt hBits network k')] at hNumber
  exact Nat.add_left_cancel hNumber

/-- An address shares the leading bits of the subnet exactly if it is counted. -/
theorem exists_hostText_iff (hBits : bits ≤ 32) {ip : String} :
    (∃ k, ip = hostText network bits k) ↔
      ∃ x : IPv4, toNat x / 2 ^ bits = network.toNat / 2 ^ bits ∧ ip = x.text := by
  constructor
  · rintro ⟨k, rfl⟩
    refine ⟨_, ?_, rfl⟩
    rw [toNat_ofNat (host_lt hBits network k), Nat.mul_comm, Nat.mul_add_div (Nat.two_pow_pos bits),
      Nat.div_eq_of_lt (Nat.mod_lt _ (Nat.two_pow_pos bits)), Nat.add_zero]
  · rintro ⟨x, hx, rfl⟩
    refine ⟨toNat x, ?_⟩
    rw [hostText, ← hx, Nat.mul_comm, Nat.div_add_mod, ofNat_toNat]

/-- From any start on, every address comes up in one round. -/
theorem exists_hostText_around (network : UInt32) (bits start k : Nat) :
    ∃ j < 2 ^ bits, hostText network bits (start + j) = hostText network bits k := by
  have hStart := Nat.div_add_mod start (2 ^ bits)
  have hs := Nat.mod_lt start (Nat.two_pow_pos bits)
  have hk := Nat.mod_lt k (Nat.two_pow_pos bits)
  obtain ⟨j, hj, q, hSum⟩ : ∃ j < 2 ^ bits, ∃ q, start + j = 2 ^ bits * q + k % 2 ^ bits := by
    rcases Nat.le_total (start % 2 ^ bits) (k % 2 ^ bits) with hLe | hLe
    · exact ⟨k % 2 ^ bits - start % 2 ^ bits, by omega, start / 2 ^ bits, by omega⟩
    · rcases Nat.eq_or_lt_of_le hLe with hEq | hLt
      · exact ⟨0, Nat.two_pow_pos bits, start / 2 ^ bits, by omega⟩
      · refine ⟨2 ^ bits + k % 2 ^ bits - start % 2 ^ bits, by omega, start / 2 ^ bits + 1, ?_⟩
        rw [Nat.mul_add, Nat.mul_one]
        omega
  refine ⟨j, hj, ?_⟩
  rw [hostText, hSum, Nat.mul_add_mod, Nat.mod_mod]
  rfl

end Hosts

section Search

/-- The loop of allocateIP, for a limited number of rounds: the addresses that
are looked up, and the one that is free. -/
def searchLoop (network mask randStart : UInt32) (ipSet : Finset String) :
    Nat → UInt32 → Option (List String × Option String)
  | 0, _ => none
  | fuel + 1, offset =>
    if offset ≤ ~~~mask then
      let randIPStr := candidate network mask randStart offset
      if randIPStr ∈ ipSet then
        (searchLoop network mask randStart ipSet fuel (offset + 1)).map
          (fun (examined, ip) => (randIPStr :: examined, ip))
      else some ([randIPStr], some randIPStr)
    else some ([], none)

/-- As `allocateIP`, with the loop as it is written and the addresses it looks up. -/
def allocateIPWithin (fuel : Nat) (rand32 : UInt32) (ipSet : Finset String) (subnet : IPNet) :
    Except String (Option (List String × Except String (String × Finset String))) := do
  let network ← uint32 subnet.ip.to4
  let mask ← uint32 subnet.mask
  pure ((searchLoop network mask (rand32 &&& ~~~mask) ipSet fuel 0).map (fun (examined, ip) =>
    (examined, match ip with
      | some ip => .ok (ip, insert ip ipSet)
      | none => .error "IP pool exhausted")))

variable {network mask randStart offset : UInt32} {bits left : Nat} {ipSet : Finset String}

theorem hostText_of_probe {ip : String} (h : HostBits mask bits)
    (hProbe : probe network mask randStart ipSet left offset = some ip) :
    ip ∉ ipSet ∧ ∃ k, ip = hostText network bits k := by
  induction left generalizing offset with
  | zero => cases hProbe
  | succ left ih =>
      rw [probe] at hProbe
      split_ifs at hProbe with hMem
      · exact ih hProbe
      · cases hProbe
        exact ⟨hMem, _, h.candidate_eq ..⟩

theorem toNat_succ (h : offset.toNat + 1 < 2 ^ 32) : (offset + 1).toNat = offset.toNat + 1 := by
  rw [UInt32.toNat_add]
  exact Nat.mod_eq_of_lt h

/-- Without an answer all the addresses that were tried are in the set. -/
theorem hostText_mem_of_probe (h : HostBits mask bits) (hLeft : offset.toNat + left ≤ 2 ^ 32)
    (hProbe : probe network mask randStart ipSet left offset = none) {k : Nat} (hk : k < left) :
    hostText network bits (randStart.toNat + offset.toNat + k) ∈ ipSet := by
  induction left generalizing offset k with
  | zero => omega
  | succ left ih =>
      rw [probe] at hProbe
      split_ifs at hProbe with hMem
      rw [h.candidate_eq] at hMem
      cases k with
      | zero => exact hMem
      | succ k =>
          have hSucc : (offset + 1).toNat = offset.toNat + 1 := toNat_succ (by omega)
          have hNext := ih (by omega) hProbe (Nat.lt_of_succ_lt_succ hk)
          have hSum : randStart.toNat + (offset.toNat + 1) + k =
              randStart.toNat + offset.toNat + (k + 1) := by omega
          rw [hSucc, hSum] at hNext
          exact hNext

/-- The loop ends after one round for each address that is left, and no address
is looked up twice. -/
theorem searchLoop_eq (h : HostBits mask bits) (hBits : bits ≤ 31) (network randStart : UInt32)
    (ipSet : Finset String) (hLeft : offset.toNat + left = 2 ^ bits) :
    ∃ examined, (∀ fuel, left < fuel → searchLoop network mask randStart ipSet fuel offset =
        some (examined, probe network mask randStart ipSet left offset)) ∧
      examined.Nodup ∧ ∀ ip ∈ examined, ∃ k < left,
        ip = hostText network bits (randStart.toNat + offset.toNat + k) := by
  have hPow : 2 ^ bits ≤ 2 ^ 31 := Nat.pow_le_pow_right (by decide) hBits
  have hLast : (~~~mask).toNat = 2 ^ bits - 1 := h
  induction left generalizing offset with
  | zero =>
      refine ⟨[], fun fuel hFuel => ?_, List.nodup_nil, by simp⟩
      have hEnd : ¬offset ≤ ~~~mask := by
        rw [UInt32.le_iff_toNat_le, hLast]
        have := Nat.two_pow_pos bits
        omega
      cases fuel with
      | zero => omega
      | succ fuel => rw [searchLoop, if_neg hEnd, probe]
  | succ left ih =>
      have hIn : offset ≤ ~~~mask := by
        rw [UInt32.le_iff_toNat_le, hLast]
        omega
      by_cases hMem : candidate network mask randStart offset ∈ ipSet
      · have hSucc : (offset + 1).toNat = offset.toNat + 1 := toNat_succ (by omega)
        have hLeft' : (offset + 1).toNat + left = 2 ^ bits := by omega
        obtain ⟨examined, hLoop, hNodup, hHosts⟩ := ih hLeft'
        have hLater : ∀ ip ∈ examined, ∃ k < left,
            ip = hostText network bits (randStart.toNat + offset.toNat + (k + 1)) := by
          intro ip hip
          obtain ⟨k, hk, rfl⟩ := hHosts ip hip
          refine ⟨k, hk, congrArg (hostText network bits) ?_⟩
          omega
        refine ⟨candidate network mask randStart offset :: examined, fun fuel hFuel => ?_,
          List.nodup_cons.mpr ⟨fun hAgain => ?_, hNodup⟩, fun ip hip => ?_⟩
        · cases fuel with
          | zero => omega
          | succ fuel =>
              rw [searchLoop, if_pos hIn, if_pos hMem, hLoop fuel (by omega), probe, if_pos hMem]
              rfl
        · obtain ⟨k, hk, hEq⟩ := hLater _ hAgain
          rw [h.candidate_eq] at hEq
          have hZero := Nat.sub_mod_eq_zero_of_mod_eq (hostText_inj h.bits_le hEq).symm
          rw [Nat.add_sub_cancel_left, Nat.mod_eq_of_lt (by omega)] at hZero
          omega
        · rcases List.mem_cons.mp hip with rfl | hip
          · exact ⟨0, Nat.succ_pos left, h.candidate_eq ..⟩
          · obtain ⟨k, hk, hEq⟩ := hLater ip hip
            exact ⟨k + 1, Nat.succ_lt_succ hk, hEq⟩
      · refine ⟨[candidate network mask randStart offset], fun fuel hFuel => ?_,
          List.nodup_singleton _, fun ip hip => ?_⟩
        · cases fuel with
          | zero => omega
          | succ fuel => rw [searchLoop, if_pos hIn, if_neg hMem, probe, if_neg hMem]
        · rw [List.mem_singleton.mp hip]
          exact ⟨0, Nat.succ_pos left, h.candidate_eq ..⟩

end Search

section Complete

variable {subnet : IPNet} {addr : IPv4} {ones : Nat}

/-- The words of a subnet. -/
theorem exists_words (hSubnet : subnet.IsPrefix addr ones) :
    ∃ network mask, uint32 subnet.ip.to4 = .ok network ∧ uint32 subnet.mask = .ok mask ∧
      network.toNat = toNat addr ∧ HostBits mask (32 - ones) := by
  rw [hSubnet.ip, hSubnet.mask]
  obtain ⟨network, hNetwork, hAddr⟩ := toNat_uint32 (rfl : (bytes4 addr).length = 4)
  obtain ⟨mask, hMask, hNumber⟩ := toNat_uint32 (length_cidrMask ones 4)
  refine ⟨network, mask, hNetwork, hMask, hAddr, ?_⟩
  have hLe : ones ≤ 8 * 4 := hSubnet.ones
  have hSum := number_cidrMask hLe
  rw [← hNumber] at hSum
  have hNot : (~~~mask).toNat = 2 ^ 32 - 1 - mask.toNat := UInt32.toNat_not mask
  have hPos := Nat.two_pow_pos (32 - ones)
  rw [HostBits, hNot]
  change mask.toNat + 2 ^ (32 - ones) = 2 ^ 32 at hSum
  omega

/-- The search is complete: it looks at no address twice, fails only if all of
them are taken, and answers with one that is free. -/
theorem allocateIP_complete (rand32 : UInt32) (ipSet : Finset String)
    (hSubnet : subnet.IsPrefix addr ones) (hOnes : 1 ≤ ones) :
    ∃ examined result,
      (∀ fuel, 2 ^ (32 - ones) < fuel →
        allocateIPWithin fuel rand32 ipSet subnet = .ok (some (examined, result))) ∧
      examined.Nodup ∧ (∀ ip ∈ examined, ∃ x : IPv4, subnet.contains (ofIPv4 x) ∧ ip = x.text) ∧
      allocateIP rand32 ipSet subnet = .ok result ∧
      ((∃ err, result = .error err) ↔
        ∀ x : IPv4, subnet.contains (ofIPv4 x) → x.text ∈ ipSet) ∧
      ∀ ip ipSet', result = .ok (ip, ipSet') →
        (∃ x : IPv4, subnet.contains (ofIPv4 x) ∧ ip = x.text) ∧ ip ∉ ipSet ∧
          ipSet' = insert ip ipSet := by
  obtain ⟨network, mask, hNetwork, hMask, hAddr, hBits⟩ := exists_words hSubnet
  have hTexts : ∀ ip, (∃ x : IPv4, subnet.contains (ofIPv4 x) ∧ ip = x.text) ↔
      ∃ k, ip = hostText network (32 - ones) k := by
    intro ip
    rw [exists_hostText_iff hBits.bits_le, hAddr]
    simp only [hSubnet.contains_ofIPv4_iff]
  have hStart : (0 : UInt32).toNat + 2 ^ (32 - ones) = 2 ^ (32 - ones) := Nat.zero_add _
  obtain ⟨examined, hLoop, hNodup, hHosts⟩ :=
    searchLoop_eq hBits (by omega) network (rand32 &&& ~~~mask) ipSet hStart
  have hExamined : ∀ ip ∈ examined, ∃ x : IPv4, subnet.contains (ofIPv4 x) ∧ ip = x.text := by
    intro ip hip
    obtain ⟨k, -, hEq⟩ := hHosts ip hip
    exact (hTexts ip).mpr ⟨_, hEq⟩
  have hSize : (~~~mask).toNat + 1 = 2 ^ (32 - ones) := by
    have hLast : (~~~mask).toNat = 2 ^ (32 - ones) - 1 := hBits
    have hPos := Nat.two_pow_pos (32 - ones)
    omega
  refine ⟨examined, match probe network mask (rand32 &&& ~~~mask) ipSet (2 ^ (32 - ones)) 0 with
    | some ip => .ok (ip, insert ip ipSet)
    | none => .error "IP pool exhausted", fun fuel hFuel => ?_, hNodup, hExamined, ?_, ?_⟩
  · simp only [allocateIPWithin, hNetwork, hMask, bind, Except.bind, hLoop fuel hFuel]
    rfl
  · simp only [allocateIP, hNetwork, hMask, bind, Except.bind, hSize]
    cases probe network mask (rand32 &&& ~~~mask) ipSet (2 ^ (32 - ones)) 0 with
    | none => rfl
    | some ip => rfl
  · cases hProbe : probe network mask (rand32 &&& ~~~mask) ipSet (2 ^ (32 - ones)) 0 with
    | none =>
        refine ⟨iff_of_true ⟨_, rfl⟩ (fun x hx => ?_), fun ip ipSet' hOk => by cases hOk⟩
        obtain ⟨k, hk⟩ := (hTexts x.text).mp ⟨x, hx, rfl⟩
        obtain ⟨j, hj, hText⟩ := exists_hostText_around network (32 - ones)
          ((rand32 &&& ~~~mask).toNat + (0 : UInt32).toNat) k
        have hLeft : (0 : UInt32).toNat + 2 ^ (32 - ones) ≤ 2 ^ 32 :=
          hStart.le.trans (Nat.pow_le_pow_right (by decide) (Nat.sub_le 32 ones))
        rw [hk, ← hText]
        exact hostText_mem_of_probe hBits hLeft hProbe hj
    | some ip =>
        obtain ⟨hFree, hHost⟩ := hostText_of_probe hBits hProbe
        obtain ⟨x, hx, hText⟩ := (hTexts ip).mpr hHost
        refine ⟨iff_of_false (fun hErr => ?_) (fun hAll => hFree (hText ▸ hAll x hx)),
          fun ip' ipSet' hOk => ?_⟩
        · obtain ⟨err, hErr⟩ := hErr
          cases hErr
        · cases hOk
          exact ⟨⟨x, hx, hText⟩, hFree, rfl⟩

/-- A subnet of two addresses, one of them taken. -/
def pairSubnet : IPNet := ⟨ofIPv4 ⟨10, 0, 0, 1⟩, cidrMask 31 4⟩

theorem allocateIP_complete_pair : ∃ examined ip ipSet',
    allocateIPWithin 3 7 {"10.0.0.1"} pairSubnet = .ok (some (examined, .ok (ip, ipSet'))) ∧
      examined.Nodup ∧ ip ∉ ({"10.0.0.1"} : Finset String) := by
  have hSubnet : pairSubnet.IsPrefix ⟨10, 0, 0, 1⟩ 31 := ⟨rfl, rfl, by decide⟩
  obtain ⟨examined, result, hLoop, hNodup, -, -, hError, hOk⟩ :=
    allocateIP_complete 7 {"10.0.0.1"} hSubnet (by decide)
  have hFree : IPv4.text ⟨10, 0, 0, 0⟩ ∉ ({"10.0.0.1"} : Finset String) := by decide
  cases result with
  | error err => exact absurd (hError.mp ⟨err, rfl⟩ ⟨10, 0, 0, 0⟩ (by decide)) hFree
  | ok res => exact ⟨examined, res.1, res.2, hLoop 3 (by decide), hNodup, (hOk _ _ rfl).2.1⟩

end Complete

end Kelda.Network
