import Kelda.Network.Openflow

/-! The names of a container's interfaces. A name has at most fifteen bytes, so
that the names of the patch ports may lose the end of the address. -/
namespace Kelda.Network.Interfaces

open IPDef Net

/-- The veth and the two patch ports that are added for a container. -/
def interfaceNames (ip : String) : List String :=
  [ifName ip, (patchPorts ip).1, (patchPorts ip).2]

/-- The numeral of an octet. -/
def digits (octet : Fin 256) : List Char := octet.val.repr.toList

/-- How many digits of the last octet are left in the name of the patch port in
the bridge of OVN. -/
def keptDigits (ip : IPv4) : Nat := 7 - ((digits ip.b).length + (digits ip.c).length)

/-- The addresses differ in the last octet only, and there only in digits that
are cut off. -/
def SameKept (ip ip' : IPv4) : Prop :=
  ip.b = ip'.b ∧ ip.c = ip'.c ∧ (digits ip.d).take (keptDigits ip) = (digits ip'.d).take (keptDigits ip)

instance (ip ip' : IPv4) : Decidable (SameKept ip ip') :=
  inferInstanceAs (Decidable (_ ∧ _ ∧ _))

theorem length_digits (octet : Fin 256) : 1 ≤ (digits octet).length ∧ (digits octet).length ≤ 3 := by
  revert octet
  decide +kernel

theorem digits_inj {octet octet' : Fin 256} (h : digits octet = digits octet') : octet = octet' :=
  Fin.ext (Nat.repr_inj.mp (String.toList_inj.mp h))

theorem dot_notMem_digits (octet : Fin 256) : '.' ∉ digits octet := IPv4.dot_notMem_repr _

theorem toList_ifName (name : String) : (ifName name).toList = name.toList.take 15 := by
  rw [ifName]
  split_ifs with hSize
  · rw [List.take_of_length_le]
    rw [String.length_toList]
    exact Nat.le_of_lt hSize
  · simp [ifNameSize]

section Names

variable {ip ip' : IPv4}

/-- The text of an address of the subnet. -/
theorem text_toList (h : ip.a = 10) : ip.text.toList =
    '1' :: '0' :: '.' :: (digits ip.b ++ '.' :: (digits ip.c ++ '.' :: digits ip.d)) := by
  rw [IPv4.text_toList, h]
  rfl

/-- The first twelve bytes have all but the end of the last octet. -/
theorem take_text (h : ip.a = 10) : ip.text.toList.take 12 =
    '1' :: '0' :: '.' :: (digits ip.b ++ '.' ::
      (digits ip.c ++ '.' :: (digits ip.d).take (keptDigits ip))) := by
  have hB := length_digits ip.b
  have hC := length_digits ip.c
  have hHead : ∀ rest, '1' :: '0' :: '.' :: (digits ip.b ++ '.' :: (digits ip.c ++ '.' :: rest)) =
      ('1' :: '0' :: '.' :: (digits ip.b ++ '.' :: (digits ip.c ++ ['.']))) ++ rest := by
    intro rest
    simp
  have hLength : 12 = ('1' :: '0' :: '.' ::
      (digits ip.b ++ '.' :: (digits ip.c ++ ['.']))).length + keptDigits ip := by
    simp only [List.length_cons, List.length_append, List.length_nil, keptDigits]
    omega
  rw [text_toList h, hHead (digits ip.d), hHead ((digits ip.d).take _), hLength,
    List.take_length_add_append]

theorem take_text_eq_iff (h : ip.a = 10) (h' : ip'.a = 10) :
    ip.text.toList.take 12 = ip'.text.toList.take 12 ↔ SameKept ip ip' := by
  rw [take_text h, take_text h']
  simp only [List.cons.injEq, true_and]
  constructor
  · intro hEq
    obtain ⟨hB, hRest⟩ := Text.append_sep_inj (dot_notMem_digits _) (dot_notMem_digits _) hEq
    obtain ⟨hC, hD⟩ := Text.append_sep_inj (dot_notMem_digits _) (dot_notMem_digits _) hRest
    have hKept : keptDigits ip' = keptDigits ip := by rw [keptDigits, keptDigits, hB, hC]
    rw [hKept] at hD
    exact ⟨digits_inj hB, digits_inj hC, hD⟩
  · rintro ⟨hB, hC, hD⟩
    have hKept : keptDigits ip' = keptDigits ip := by rw [keptDigits, keptDigits, hB, hC]
    rw [hKept, hB, hC, hD]

theorem names_toList (h : ip.a = 10) : (interfaceNames ip.text).map String.toList =
    [ip.text.toList, 'b' :: 'r' :: '_' :: ip.text.toList.take 12,
      'q' :: '_' :: ip.text.toList.take 13] := by
  have hLength : ip.text.toList.length ≤ 15 := by
    have hB := length_digits ip.b
    have hC := length_digits ip.c
    have hD := length_digits ip.d
    rw [text_toList h]
    simp only [List.length_cons, List.length_append]
    omega
  simp [interfaceNames, patchPorts, toList_ifName, List.take_of_length_le hLength]

/-- Names of different kinds differ in the first byte. -/
theorem nodup_six_iff {t t' : List Char} (ht : t.head? = some '1') (ht' : t'.head? = some '1')
    (hne : t ≠ t') :
    ([t, 'b' :: 'r' :: '_' :: t.take 12, 'q' :: '_' :: t.take 13] ++
      [t', 'b' :: 'r' :: '_' :: t'.take 12, 'q' :: '_' :: t'.take 13]).Nodup ↔
        t.take 12 ≠ t'.take 12 := by
  have hFirst : ∀ {c : Char} {s : List Char}, c ≠ '1' → t ≠ c :: s ∧ t' ≠ c :: s := by
    intro c s hc
    constructor
    · rintro rfl
      exact hc (Option.some.inj ht)
    · rintro rfl
      exact hc (Option.some.inj ht')
  have hMore : t.take 12 ≠ t'.take 12 → t.take 13 ≠ t'.take 13 := by
    intro h hEq
    have hTake := congrArg (List.take 12) hEq
    simp only [List.take_take, show min 12 13 = 12 from rfl] at hTake
    exact h hTake
  have hB := fun {s : List Char} => hFirst (c := 'b') (s := s) (by decide)
  have hQ := fun {s : List Char} => hFirst (c := 'q') (s := s) (by decide)
  simp [hne, hB, hQ, hB.2.symm, hQ.2.symm]
  exact hMore

/-- The six names of two addresses are different, unless the addresses differ
only in what is cut off. -/
theorem interfaceNames_nodup_iff (hIP : keldaSubnet.contains (ofIPv4 ip) = true)
    (hIP' : keldaSubnet.contains (ofIPv4 ip') = true) (hne : ip ≠ ip') :
    (interfaceNames ip.text ++ interfaceNames ip'.text).Nodup ↔ ¬SameKept ip ip' := by
  rw [contains_keldaSubnet] at hIP hIP'
  have hInj : Function.Injective String.toList := fun _ _ h => String.toList_inj.mp h
  have hText : ip.text.toList ≠ ip'.text.toList := fun h => hne (IPv4.text_inj.mp (hInj h))
  rw [← take_text_eq_iff hIP hIP', ← List.nodup_map_iff hInj, List.map_append,
    names_toList hIP, names_toList hIP']
  exact nodup_six_iff (by rw [text_toList hIP]; rfl) (by rw [text_toList hIP']; rfl) hText

theorem interfaceNames_nodup_short :
    (interfaceNames (IPv4.text ⟨10, 100, 20, 3⟩) ++
      interfaceNames (IPv4.text ⟨10, 100, 20, 30⟩)).Nodup :=
  (interfaceNames_nodup_iff (by decide) (by decide) (by decide)).mpr (by decide)

/-- With two octets of three digits only one digit of the last is kept, so that
two containers share both patch ports. -/
theorem patchPorts_shared :
    keldaSubnet.contains (ofIPv4 ⟨10, 100, 100, 100⟩) = true ∧
      keldaSubnet.contains (ofIPv4 ⟨10, 100, 100, 101⟩) = true ∧
      patchPorts (IPv4.text ⟨10, 100, 100, 100⟩) = ("br_10.100.100.1", "q_10.100.100.10") ∧
      patchPorts (IPv4.text ⟨10, 100, 100, 101⟩) = ("br_10.100.100.1", "q_10.100.100.10") ∧
      ¬(interfaceNames (IPv4.text ⟨10, 100, 100, 100⟩) ++
        interfaceNames (IPv4.text ⟨10, 100, 100, 101⟩)).Nodup := by
  decide

end Names

end Kelda.Network.Interfaces
