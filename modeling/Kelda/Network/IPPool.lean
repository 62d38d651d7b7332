import Kelda.Network.Allocate

/-! The addresses that allocateIP can answer with are those of the container
subnet; it fails only if all of them are taken. -/
namespace Kelda.Network

open DB Net IPDef Allocation

/-- The address of the container subnet with a host number. -/
def hostAddress (x : Nat) : IPv4 :=
  ⟨10, Fin.ofNat 256 (x / 65536), Fin.ofNat 256 (x / 256), Fin.ofNat 256 x⟩

/-- The texts of all addresses of the container subnet. -/
def keldaAddresses : Finset String :=
  (Finset.range (2 ^ 24)).image (fun x => (hostAddress x).text)

theorem mem_keldaAddresses {ip : String} :
    ip ∈ keldaAddresses ↔ ∃ addr : IPv4, addr.a = 10 ∧ ip = addr.text := by
  rw [keldaAddresses, Finset.mem_image]
  constructor
  · rintro ⟨x, -, rfl⟩
    exact ⟨hostAddress x, rfl, rfl⟩
  · rintro ⟨⟨a, b, c, d⟩, rfl, rfl⟩
    refine ⟨b * 65536 + c * 256 + d, Finset.mem_range.mpr (by omega), congrArg IPv4.text ?_⟩
    simp only [hostAddress, IPv4.mk.injEq, true_and, Fin.ext_iff, Fin.val_ofNat]
    omega

section Arithmetic

/-- The network number and mask of the container subnet. -/
def keldaNetwork : UInt32 := 0x0a000000

def keldaMask : UInt32 := 0xff000000

theorem keldaMask_hostBits : HostBits keldaMask 24 := by
  rw [HostBits]
  decide

theorem hostText_kelda (k : Nat) :
    hostText keldaNetwork 24 k = (hostAddress (k % 2 ^ 24)).text := by
  have hBase : keldaNetwork.toNat / 2 ^ 24 * 2 ^ 24 = 10 * 2 ^ 24 := by decide
  rw [hostText, hBase, IPv4.text_inj]
  simp only [ofNat, hostAddress, IPv4.mk.injEq, Fin.ext_iff, Fin.val_ofNat]
  change _ = 10 ∧ _ ∧ _ ∧ _
  omega

variable {randStart offset : UInt32} {ipSet : Finset String} {left : Nat}

theorem probe_first (hLeft : 0 < left)
    (h : candidate keldaNetwork keldaMask randStart offset ∉ ipSet) :
    probe keldaNetwork keldaMask randStart ipSet left offset =
      some (candidate keldaNetwork keldaMask randStart offset) := by
  cases left with
  | zero => omega
  | succ left => rw [probe, if_neg h]

/-- The answer is an address of the subnet that is not in the set. -/
theorem probe_eq_some {ip : String}
    (h : probe keldaNetwork keldaMask randStart ipSet left offset = some ip) :
    ip ∈ keldaAddresses ∧ ip ∉ ipSet := by
  obtain ⟨hFree, k, hHost⟩ := hostText_of_probe keldaMask_hostBits h
  exact ⟨mem_keldaAddresses.mpr ⟨hostAddress _, rfl, hHost.trans (hostText_kelda k)⟩, hFree⟩

end Arithmetic

section Draw

/-- What allocateIP answers with for the container subnet. -/
def firstFree (rand32 : UInt32) (ipSet : Finset String) : Option String :=
  probe keldaNetwork keldaMask (rand32 &&& ~~~keldaMask) ipSet (2 ^ 24) 0

theorem allocateIP_keldaSubnet (rand32 : UInt32) (ipSet : Finset String) :
    allocateIP rand32 ipSet keldaSubnet =
      match firstFree rand32 ipSet with
      | some ip => .ok (.ok (ip, insert ip ipSet))
      | none => .ok (.error "IP pool exhausted") := by
  have hNetwork : uint32 keldaSubnet.ip.to4 = .ok keldaNetwork := by decide
  have hMask : uint32 keldaSubnet.mask = .ok keldaMask := by decide
  have hSize : (~~~keldaMask).toNat + 1 = 2 ^ 24 := by decide
  cases hProbe : firstFree rand32 ipSet with
  | none | some ip =>
      rw [firstFree] at hProbe
      simp only [allocateIP, hNetwork, hMask, bind, Except.bind, hSize, hProbe]

/-- The source of addresses that a sequence of random numbers makes. -/
def drawIP (rand32 : Nat → UInt32) : Picker keldaAddresses where
  pick := fun n used => firstFree (rand32 n) used
  fresh := probe_eq_some
  exhausted := by
    intro n used h ip hip
    rw [keldaAddresses, Finset.mem_image] at hip
    obtain ⟨x, hx, rfl⟩ := hip
    rw [Finset.mem_range] at hx
    obtain ⟨j, hj, hText⟩ := exists_hostText_around keldaNetwork 24
      ((rand32 n &&& ~~~keldaMask).toNat + (0 : UInt32).toNat) x
    have hTried := hostText_mem_of_probe keldaMask_hostBits (by decide) h hj
    rw [hText, hostText_kelda, Nat.mod_eq_of_lt hx] at hTried
    exact hTried

/-- The first address that is tried is the one of the random number. -/
theorem firstFree_of_notMem {x : Nat} (hx : x < 2 ^ 24) {used : Finset String}
    (h : (hostAddress x).text ∉ used) :
    firstFree (UInt32.ofNat x) used = some (hostAddress x).text := by
  have hFirst : candidate keldaNetwork keldaMask (UInt32.ofNat x &&& ~~~keldaMask) 0 =
      (hostAddress x).text := by
    have hZero : (0 : UInt32).toNat = 0 := rfl
    rw [keldaMask_hostBits.candidate_eq, keldaMask_hostBits.toNat_host, UInt32.toNat_ofNat',
      hZero, hostText_kelda]
    congr 2
    omega
  rw [firstFree, probe_first (by decide) (hFirst ▸ h), hFirst]

end Draw

end Kelda.Network
