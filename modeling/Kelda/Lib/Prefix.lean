import Mathlib.Data.Nat.Bitwise
import Kelda.Lib.NetIP

/-! Subnets as prefixes. Addresses are compared as numbers: a subnet with a
contiguous mask holds the addresses that share the leading bits of its own. -/
namespace Net

section Numbers

/-- The big endian number of some bytes. -/
def number : List UInt8 → Nat
  | [] => 0
  | a :: as => a.toNat * 2 ^ (8 * as.length) + number as

theorem number_lt (as : List UInt8) : number as < 2 ^ (8 * as.length) := by
  induction as with
  | nil => decide
  | cons a as ih =>
      have ha : a.toNat + 1 ≤ 2 ^ 8 := a.toNat_lt
      calc number (a :: as) < (a.toNat + 1) * 2 ^ (8 * as.length) := by
            rw [number]
            linarith
        _ ≤ 2 ^ 8 * 2 ^ (8 * as.length) := Nat.mul_le_mul_right _ ha
        _ = 2 ^ (8 * (as.length + 1)) := by
            rw [← pow_add]
            congr 1
            omega

theorem length_cidrMask (ones bytes : Nat) : (cidrMask ones bytes).length = bytes := by
  induction bytes generalizing ones with
  | zero => rfl
  | succ bytes ih => rw [cidrMask, List.length_cons, ih]

theorem toNat_maskByte {ones : Nat} (h : ones ≤ 8) :
    (maskByte ones).toNat = 256 - 2 ^ (8 - ones) := by
  have hAll : ∀ k : Fin 9, (maskByte k).toNat = 256 - 2 ^ (8 - k.val) := by decide
  exact hAll ⟨ones, by omega⟩

/-- The mask clears the trailing bits. -/
theorem toNat_and_maskByte (a : UInt8) {ones : Nat} (h : ones ≤ 8) :
    (a &&& maskByte ones).toNat = a.toNat / 2 ^ (8 - ones) * 2 ^ (8 - ones) := by
  have hAll : ∀ (k : Fin 9) (n : Fin 256),
      (UInt8.ofFin n &&& maskByte k).toNat = n.val / 2 ^ (8 - k.val) * 2 ^ (8 - k.val) := by
    decide +kernel
  exact hAll ⟨ones, by omega⟩ a.toFin

theorem and_maskByte_eq_iff {a b : UInt8} {ones : Nat} (h : ones ≤ 8) :
    a &&& maskByte ones = b &&& maskByte ones ↔
      a.toNat / 2 ^ (8 - ones) = b.toNat / 2 ^ (8 - ones) := by
  rw [← UInt8.toNat_inj, toNat_and_maskByte a h, toNat_and_maskByte b h,
    Nat.mul_left_inj (Nat.two_pow_pos _).ne']

/-- Only the leading bits of the first byte are left. -/
theorem number_cons_div_add (a : UInt8) (as : List UInt8) (k : Nat) :
    number (a :: as) / 2 ^ (8 * as.length + k) = a.toNat / 2 ^ k := by
  rw [pow_add, ← Nat.div_div_eq_div_mul, number, Nat.mul_comm,
    Nat.mul_add_div (Nat.two_pow_pos _), Nat.div_eq_of_lt (number_lt as), Nat.add_zero]

/-- The first byte is left as it is. -/
theorem number_cons_div {a : UInt8} {as : List UInt8} {k : Nat} (h : k ≤ 8 * as.length) :
    number (a :: as) / 2 ^ k = a.toNat * 2 ^ (8 * as.length - k) + number as / 2 ^ k := by
  have hPow : 2 ^ (8 * as.length) = 2 ^ k * 2 ^ (8 * as.length - k) := by
    rw [← pow_add, Nat.add_sub_cancel' h]
  have hSplit : number (a :: as) = 2 ^ k * (a.toNat * 2 ^ (8 * as.length - k)) + number as := by
    rw [number, hPow]
    ring
  rw [hSplit, Nat.mul_add_div (Nat.two_pow_pos _)]

theorem number_div_lt {as : List UInt8} {k : Nat} (h : k ≤ 8 * as.length) :
    number as / 2 ^ k < 2 ^ (8 * as.length - k) := by
  apply Nat.div_lt_of_lt_mul
  rw [← pow_add, Nat.add_sub_cancel' h]
  exact number_lt as

theorem mul_add_inj {a b A B M : Nat} (hA : A < M) (hB : B < M) :
    a * M + A = b * M + B ↔ a = b ∧ A = B := by
  constructor
  · intro h
    have hM : 0 < M := Nat.zero_lt_of_lt hA
    have hDiv := congrArg (· / M) h
    have hMod := congrArg (· % M) h
    simp only [Nat.mul_comm _ M, Nat.mul_add_div hM, Nat.div_eq_of_lt hA, Nat.div_eq_of_lt hB,
      Nat.mul_add_mod, Nat.mod_eq_of_lt hA, Nat.mod_eq_of_lt hB, Nat.add_zero] at hDiv hMod
    exact ⟨hDiv, hMod⟩
  · rintro ⟨rfl, rfl⟩
    rfl

/-- Under a mask addresses are equal if their leading bits are. -/
theorem and_cidrMask_eq_iff {as bs : List UInt8} (hLen : as.length = bs.length) {ones : Nat}
    (h : ones ≤ 8 * as.length) :
    List.zipWith (· &&& ·) as (cidrMask ones as.length) =
        List.zipWith (· &&& ·) bs (cidrMask ones as.length) ↔
      number as / 2 ^ (8 * as.length - ones) = number bs / 2 ^ (8 * as.length - ones) := by
  induction as generalizing bs ones with
  | nil =>
      rw [List.eq_nil_of_length_eq_zero hLen.symm]
      exact iff_of_true rfl rfl
  | cons a as ih =>
      cases bs with
      | nil => cases hLen
      | cons b bs =>
          have hLen' : as.length = bs.length := Nat.succ.inj hLen
          rw [List.length_cons] at h ⊢
          rw [cidrMask, List.zipWith_cons_cons, List.zipWith_cons_cons, List.cons.injEq]
          rcases Nat.le_total ones 8 with hOnes | hOnes
          · have hRest := ih hLen' (Nat.zero_le _)
            have hExp : 8 * (as.length + 1) - ones = 8 * as.length + (8 - ones) := by omega
            rw [Nat.min_eq_left hOnes, Nat.sub_eq_zero_of_le hOnes, and_maskByte_eq_iff hOnes,
              hRest, hExp, number_cons_div_add, hLen', number_cons_div_add, ← hLen', Nat.sub_zero,
              Nat.div_eq_of_lt (number_lt as), hLen', Nat.div_eq_of_lt (number_lt bs)]
            exact and_iff_left rfl
          · have hExp : 8 * (as.length + 1) - ones = 8 * as.length - (ones - 8) := by omega
            have hk : 8 * as.length - (ones - 8) ≤ 8 * as.length := Nat.sub_le _ _
            have hk' : 8 * as.length - (ones - 8) ≤ 8 * bs.length := hLen' ▸ hk
            have hA := number_div_lt hk
            have hB := number_div_lt hk'
            rw [Nat.min_eq_right hOnes, and_maskByte_eq_iff (Nat.le_refl 8),
              ih hLen' (by omega), hExp, number_cons_div hk, number_cons_div hk', ← hLen']
            rw [← hLen'] at hB
            generalize number as / 2 ^ (8 * as.length - (ones - 8)) = A at hA ⊢
            generalize number bs / 2 ^ (8 * as.length - (ones - 8)) = B at hB ⊢
            generalize 2 ^ (8 * as.length - (8 * as.length - (ones - 8))) = M at hA hB ⊢
            simp only [Nat.sub_self, pow_zero, Nat.div_one]
            exact (mul_add_inj hA hB).symm

/-- A mask is short of all ones by the size of the host part. -/
theorem number_cidrMask {ones bytes : Nat} (h : ones ≤ 8 * bytes) :
    number (cidrMask ones bytes) + 2 ^ (8 * bytes - ones) = 2 ^ (8 * bytes) := by
  induction bytes generalizing ones with
  | zero =>
      obtain rfl : ones = 0 := by omega
      rfl
  | succ bytes ih =>
      rw [cidrMask, number, length_cidrMask, toNat_maskByte (Nat.min_le_right ones 8)]
      have hLe : ones - 8 ≤ 8 * bytes := by omega
      have hRest := ih hLe
      have hPow : 2 ^ (8 * (bytes + 1)) = 256 * 2 ^ (8 * bytes) := by
        rw [Nat.mul_add, pow_add, Nat.mul_comm]
        rfl
      rcases Nat.le_total ones 8 with hOnes | hOnes
      · have hExp : 8 * (bytes + 1) - ones = (8 - ones) + 8 * bytes := by omega
        have hByte : 2 ^ (8 - ones) ≤ 2 ^ 8 := Nat.pow_le_pow_right (by decide) (Nat.sub_le 8 ones)
        rw [Nat.sub_eq_zero_of_le hOnes] at hRest ⊢
        rw [Nat.sub_zero] at hRest
        rw [Nat.min_eq_left hOnes, hExp, pow_add, hPow, Nat.sub_mul]
        have hMul := Nat.mul_le_mul_right (2 ^ (8 * bytes)) hByte
        omega
      · have hExp : 8 * (bytes + 1) - ones = 8 * bytes - (ones - 8) := by omega
        rw [Nat.min_eq_right hOnes, hExp, hPow]
        have hOne : 256 - 2 ^ (8 - 8) = 255 := rfl
        rw [hOne]
        omega

end Numbers

section Subnets

/-- An address as a number. -/
def toNat (x : IPv4) : Nat := number (bytes4 x)

theorem toNat_eq (x : IPv4) : toNat x = x.a * 2 ^ 24 + x.b * 2 ^ 16 + x.c * 2 ^ 8 + x.d := by
  simp only [toNat, bytes4, number, List.length_cons, List.length_nil]
  change x.a.val * _ + (x.b.val * _ + (x.c.val * _ + (x.d.val * _ + 0))) = _
  omega

/-- The address of a number. -/
def ofNat (v : Nat) : IPv4 :=
  ⟨Fin.ofNat 256 (v / 2 ^ 24), Fin.ofNat 256 (v / 2 ^ 16), Fin.ofNat 256 (v / 2 ^ 8),
    Fin.ofNat 256 v⟩

theorem ofNat_toNat (x : IPv4) : ofNat (toNat x) = x := by
  cases x with
  | mk a b c d =>
      simp only [toNat_eq, ofNat, IPv4.mk.injEq, Fin.ext_iff, Fin.val_ofNat]
      omega

theorem toNat_ofNat {v : Nat} (h : v < 2 ^ 32) : toNat (ofNat v) = v := by
  simp only [toNat_eq, ofNat, Fin.val_ofNat]
  omega

theorem exists_bytes4 {ip : List UInt8} (h : ip.length = 4) : ∃ x, ip = bytes4 x := by
  match ip, h with
  | [a, b, c, d], _ => exact ⟨⟨a.toFin, b.toFin, c.toFin, d.toFin⟩, rfl⟩

/-- A subnet of IPv4 addresses, with a contiguous mask. -/
structure IPNet.IsPrefix (n : IPNet) (addr : IPv4) (ones : Nat) : Prop where
  ip : n.ip.to4 = bytes4 addr
  mask : n.mask = cidrMask ones 4
  ones : ones ≤ 32

/-- The addresses of a subnet share its leading bits. -/
theorem IPNet.IsPrefix.contains_iff {n : IPNet} {addr x : IPv4} {ones : Nat}
    (h : n.IsPrefix addr ones) {ip : IP} (hx : ip.to4 = bytes4 x) :
    n.contains ip ↔ toNat x / 2 ^ (32 - ones) = toNat addr / 2 ^ (32 - ones) := by
  have hNe : ∀ y : IPv4, bytes4 y ≠ [] := fun y => List.cons_ne_nil _ _
  have hNumber : n.numberAndMask = (bytes4 addr, cidrMask ones 4) := by
    have hLen : (cidrMask ones 4).length = ipv4len := length_cidrMask ones 4
    rw [IPNet.numberAndMask, h.ip, if_neg (hNe addr), h.mask, if_pos hLen]
    rfl
  have hBytes : (bytes4 addr).length = 4 := rfl
  have hLen : (bytes4 addr).length = (bytes4 x).length := rfl
  have hMask := and_cidrMask_eq_iff hLen h.ones
  rw [hBytes] at hMask
  rw [IPNet.contains, hNumber, hx]
  dsimp only
  rw [if_neg (hNe x), decide_eq_true_iff, and_iff_right hLen.symm, hMask]
  exact eq_comm

theorem IPNet.IsPrefix.contains_ofIPv4_iff {n : IPNet} {addr : IPv4} {ones : Nat}
    (h : n.IsPrefix addr ones) (x : IPv4) :
    n.contains (ofIPv4 x) ↔ toNat x / 2 ^ (32 - ones) = toNat addr / 2 ^ (32 - ones) :=
  h.contains_iff (to4_ofIPv4 x)

theorem div_two_pow_of_le {x y j k : Nat} (h : x / 2 ^ j = y / 2 ^ j) (hLe : j ≤ k) :
    x / 2 ^ k = y / 2 ^ k := by
  rw [← Nat.add_sub_cancel' hLe, pow_add, ← Nat.div_div_eq_div_mul, h, Nat.div_div_eq_div_mul]

/-- Two subnets meet only if the larger one holds the address of the other. -/
theorem contains_or_contains_iff {n n' : IPNet} {addr addr' : IPv4} {ones ones' : Nat}
    (h : n.IsPrefix addr ones) (h' : n'.IsPrefix addr' ones') :
    (n.contains n'.ip ∨ n'.contains n.ip) ↔
      ∃ x : IPv4, n.contains (ofIPv4 x) ∧ n'.contains (ofIPv4 x) := by
  rw [h.contains_iff h'.ip, h'.contains_iff h.ip]
  simp only [h.contains_ofIPv4_iff, h'.contains_ofIPv4_iff]
  constructor
  · rintro (hIn | hIn)
    · exact ⟨addr', hIn, rfl⟩
    · exact ⟨addr, rfl, hIn⟩
  · rintro ⟨x, hx, hx'⟩
    rcases Nat.le_total ones ones' with hLe | hLe
    · have hShort := div_two_pow_of_le hx' (Nat.sub_le_sub_left hLe 32)
      exact .inl (hShort.symm.trans hx)
    · have hShort := div_two_pow_of_le hx (Nat.sub_le_sub_left hLe 32)
      exact .inr (hShort.symm.trans hx')

theorem parseIPv4_cases (s : List Char) : parseIPv4 s = [] ∨ ∃ addr, parseIPv4 s = ofIPv4 addr := by
  rw [parseIPv4]
  cases IPv4.parse (String.ofList s) with
  | none => exact .inl rfl
  | some addr => exact .inr ⟨addr, rfl⟩

theorem mask_ofIPv4 (addr : IPv4) {ones : Nat} :
    (ofIPv4 addr).mask (cidrMask ones 4) =
      List.zipWith (· &&& ·) (bytes4 addr) (cidrMask ones 4) := by
  have hLen : (cidrMask ones 4).length = 4 := length_cidrMask ones 4
  have hShort : ¬((cidrMask ones 4).length = ipv6len ∧ (ofIPv4 addr).length = ipv4len ∧
      (cidrMask ones 4).take 12 = List.replicate 12 255) := fun h =>
    absurd (hLen.symm.trans h.1) (by decide)
  have hFour : (cidrMask ones 4).length = ipv4len ∧ (ofIPv4 addr).length = ipv6len ∧
      (ofIPv4 addr).take 12 = v4InV6Prefix := ⟨hLen, rfl, rfl⟩
  have hSame : ((ofIPv4 addr).drop 12).length = (cidrMask ones 4).length := hLen.symm ▸ rfl
  rw [IP.mask, if_neg hShort, if_pos hFour, if_pos hSame]
  rfl

/-- The text of an IPv4 subnet is a prefix, also if bits of the host are set. -/
theorem isPrefix_of_parseCIDR {s : String} {n : IPNet} (h : parseCIDR s = .ok n)
    (hMask : n.mask.length = 4) : ∃ addr ones, n.IsPrefix addr ones := by
  rw [parseCIDR] at h
  split at h
  · cases h
  · next bits hDrop =>
      cases hRead : Text.readNat bits with
      | none =>
          simp only [hRead] at h
          cases h
      | some ones =>
          rcases parseIPv4_cases (s.toList.takeWhile (· ≠ '/')) with hIPv4 | ⟨addr, hIPv4⟩
          · simp only [hIPv4, hRead] at h
            split_ifs at h
            cases h
            rw [length_cidrMask] at hMask
            cases hMask
          · simp only [hIPv4, hRead] at h
            split_ifs at h with hBad
            rw [not_or, not_lt] at hBad
            obtain ⟨addr', hAddr'⟩ : ∃ x, (ofIPv4 addr).mask (cidrMask ones 4) = bytes4 x := by
              apply exists_bytes4
              rw [mask_ofIPv4, List.length_zipWith, length_cidrMask]
              rfl
            cases h
            refine ⟨addr', ones, ?_, rfl, hBad.2⟩
            change IP.to4 ((ofIPv4 addr).mask (cidrMask ones 4)) = bytes4 addr'
            rw [hAddr']
            rfl

end Subnets

end Net
