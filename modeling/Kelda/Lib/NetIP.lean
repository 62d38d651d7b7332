import Kelda.Lib.IPv4

/-! Addresses and subnets of Go's package `net`: slices of four or sixteen
bytes, with the empty slice for no address. -/
namespace Net

abbrev IP := List UInt8

/-- The first twelve bytes of an IPv4 address in sixteen bytes. -/
def v4InV6Prefix : List UInt8 := List.replicate 10 0 ++ [255, 255]

def ipv4len : Nat := 4

def ipv6len : Nat := 16

/-- The four bytes of an address. -/
def bytes4 (ip : IPv4) : List UInt8 :=
  [UInt8.ofFin ip.a, UInt8.ofFin ip.b, UInt8.ofFin ip.c, UInt8.ofFin ip.d]

/-- An IPv4 address, in sixteen bytes. -/
def ofIPv4 (ip : IPv4) : IP := v4InV6Prefix ++ bytes4 ip

/-- The address as four bytes, or nothing if it is no IPv4 address. -/
def IP.to4 (ip : IP) : IP :=
  if ip.length = ipv4len then ip
  else if ip.length = ipv6len ∧ ip.take 12 = v4InV6Prefix then ip.drop 12
  else []

def parseIPv4 (s : List Char) : IP :=
  match IPv4.parse (String.ofList s) with
  | some ip => ofIPv4 ip
  | none => []

/-- The digits at the front of a text, as a number, and what follows them. -/
def xtoi (s : List Char) : Option (Nat × List Char) :=
  match Text.readHex (s.takeWhile (fun c => (Text.hexDigit? c).isSome)) with
  | some n => some (n, s.dropWhile (fun c => (Text.hexDigit? c).isSome))
  | none => none

/-- Groups of sixteen bits between colons. The state is the bytes so far, with
the place of the ellipsis among them; the first number counts the groups that
still fit. -/
def parseGroups : Nat → IP → Option Nat → List Char → Option (IP × Option Nat)
  | 0, ip, ellipsis, s => if s = [] then some (ip, ellipsis) else none
  | room + 1, ip, ellipsis, s =>
    match xtoi s with
    | none => none
    | some (n, rest) =>
      if 65535 < n then none
      else if rest.head? = some '.' then
        -- an IPv4 address may stand at the end
        if ellipsis = none ∧ ip.length ≠ ipv6len - ipv4len then none
        else if ipv6len < ip.length + ipv4len then none
        else
          match parseIPv4 s with
          | [] => none
          | ip4 => some (ip ++ ip4.drop 12, ellipsis)
      else
        let ip := ip ++ [UInt8.ofNat (n / 256), UInt8.ofNat (n % 256)]
        match rest with
        | [] => some (ip, ellipsis)
        | [_] => none
        | c :: c' :: rest =>
          if c ≠ ':' then none
          else if c' = ':' then
            if ellipsis.isSome then none
            else if rest = [] then some (ip, some ip.length)
            else parseGroups room ip (some ip.length) rest
          else parseGroups room ip ellipsis (c' :: rest)

/-- Zeros in the place of the ellipsis, at least one group of them. -/
def expandEllipsis : IP × Option Nat → IP
  | (ip, ellipsis) =>
    if ip.length < ipv6len then
      match ellipsis with
      | none => []
      | some i => ip.take i ++ List.replicate (ipv6len - ip.length) 0 ++ ip.drop i
    else if ellipsis.isSome then []
    else ip

def parseIPv6 (s : List Char) : IP :=
  match s with
  | ':' :: ':' :: [] => List.replicate ipv6len 0
  | ':' :: ':' :: rest => ((parseGroups 8 [] (some 0) rest).map expandEllipsis).getD []
  | s => ((parseGroups 8 [] none s).map expandEllipsis).getD []

/-- The first dot or colon tells which kind of address the text is. -/
def parseIP (s : String) : IP :=
  match s.toList.find? (fun c => c = '.' ∨ c = ':') with
  | some '.' => parseIPv4 s.toList
  | some _ => parseIPv6 s.toList
  | none => []

/-- A subnet with its mask. -/
structure IPNet where
  ip : IP
  mask : List UInt8
deriving DecidableEq

/-- The byte of a mask of which the first bits are set. -/
def maskByte (ones : Nat) : UInt8 := UInt8.ofNat (256 - 2 ^ (8 - ones))

/-- A mask of so many bytes, of which so many bits are set. -/
def cidrMask : Nat → Nat → List UInt8
  | _, 0 => []
  | ones, bytes + 1 => maskByte (min ones 8) :: cidrMask (ones - 8) bytes

/-- The bytes of an address under a mask. A mask of another length fits if the
difference is the prefix of IPv4 addresses. -/
def IP.mask (ip : IP) (mask : List UInt8) : IP :=
  let mask := if mask.length = ipv6len ∧ ip.length = ipv4len ∧
    mask.take 12 = List.replicate 12 255 then mask.drop 12 else mask
  let ip := if mask.length = ipv4len ∧ ip.length = ipv6len ∧ ip.take 12 = v4InV6Prefix
    then ip.drop 12 else ip
  if ip.length = mask.length then List.zipWith (· &&& ·) ip mask else []

/-- The error of `parseCIDR`. -/
def cidrError (s : String) : String := "invalid CIDR address: " ++ s

/-- The network of a text such as `10.0.0.0/8`. -/
def parseCIDR (s : String) : Except String IPNet :=
  match s.toList.dropWhile (· ≠ '/') with
  | [] => .error (cidrError s)
  | _ :: bits =>
    let addr := s.toList.takeWhile (· ≠ '/')
    let (iplen, ip) :=
      match parseIPv4 addr with
      | [] => (ipv6len, parseIPv6 addr)
      | ip => (ipv4len, ip)
    match Text.readNat bits with
    | none => .error (cidrError s)
    | some n =>
      if ip = [] ∨ 8 * iplen < n then .error (cidrError s)
      else
        let m := cidrMask n iplen
        .ok ⟨ip.mask m, m⟩

/-- The network number and mask, of the same length. -/
def IPNet.numberAndMask (n : IPNet) : IP × List UInt8 :=
  let ip := if n.ip.to4 = [] then n.ip else n.ip.to4
  if n.mask.length = ipv4len then
    if ip.length = ipv4len then (ip, n.mask) else ([], [])
  else if n.mask.length = ipv6len then
    if ip.length = ipv4len then (ip, n.mask.drop 12)
    else if ip.length = ipv6len then (ip, n.mask)
    else ([], [])
  else ([], [])

def IPNet.contains (n : IPNet) (ip : IP) : Bool :=
  let (number, mask) := n.numberAndMask
  let ip := if ip.to4 = [] then ip else ip.to4
  ip.length = number.length ∧
    List.zipWith (· &&& ·) number mask = List.zipWith (· &&& ·) ip mask

theorem to4_ofIPv4 (ip : IPv4) : (ofIPv4 ip).to4 = bytes4 ip := rfl

/-- The dots of a dotted decimal text come before any colon. -/
theorem parseIP_text (ip : IPv4) : parseIP ip.text = ofIPv4 ip := by
  have hFind : ip.text.toList.find? (fun c => c = '.' ∨ c = ':') = some '.' := by
    have hOctet : ip.a.val.repr.toList.find? (fun c => decide (c = '.' ∨ c = ':')) = none := by
      rw [List.find?_eq_none]
      intro c hc
      rw [decide_eq_true_eq]
      rintro (rfl | rfl) <;> exact absurd (Text.isDigit_of_mem_repr hc) (by decide)
    rw [IPv4.text_toList, List.find?_append, hOctet]
    rfl
  rw [parseIP, hFind]
  simp [parseIPv4]

example : parseIP "2001:db8::ff:0:1" =
    [32, 1, 13, 184, 0, 0, 0, 0, 0, 0, 0, 255, 0, 0, 0, 1] := by decide

section Characters

/-- The characters of addresses: digits, dots and colons. -/
def AddressChar (c : Char) : Prop := (Text.hexDigit? c).isSome ∨ c = '.' ∨ c = ':'

theorem AddressChar.of_isDigit {c : Char} (h : c.isDigit) : AddressChar c := by
  refine Or.inl ?_
  simp [Text.hexDigit?, h]

theorem isDigit_of_parseOctet {s : List Char} {n : Fin 256} (h : IPv4.parseOctet s = some n) :
    ∀ c ∈ s, c.isDigit := by
  rw [IPv4.parseOctet] at h
  split at h
  · next m hRead => exact Text.isDigit_of_readNat hRead
  · cases h

theorem addressChar_of_parseIPv4 {s : List Char} (h : parseIPv4 s ≠ []) :
    ∀ c ∈ s, AddressChar c := by
  rw [parseIPv4] at h
  split at h
  · next ip hParse =>
      rw [IPv4.parse, String.toList_ofList] at hParse
      split at hParse
      · next w x y z hSplit =>
          simp only [Option.bind_eq_bind, Option.bind_eq_some_iff] at hParse
          obtain ⟨a, ha, b, hb, c, hc, d, hd, -⟩ := hParse
          have hText : ['.'].intercalate (s.splitOn '.') = s := List.intercalate_splitOn '.'
          intro ch hch
          rw [← hText, hSplit] at hch
          simp only [List.intercalate, List.intersperse, List.flatten_cons, List.flatten_nil,
            List.mem_append, List.mem_singleton, List.not_mem_nil, or_false] at hch
          rcases hch with h | rfl | h | rfl | h | rfl | h
          · exact .of_isDigit (isDigit_of_parseOctet ha ch h)
          · exact Or.inr (Or.inl rfl)
          · exact .of_isDigit (isDigit_of_parseOctet hb ch h)
          · exact Or.inr (Or.inl rfl)
          · exact .of_isDigit (isDigit_of_parseOctet hc ch h)
          · exact Or.inr (Or.inl rfl)
          · exact .of_isDigit (isDigit_of_parseOctet hd ch h)
      · cases hParse
  · exact absurd rfl h

/-- The digits in front of the rest. -/
theorem xtoi_eq {s rest : List Char} {n : Nat} (h : xtoi s = some (n, rest)) :
    ∃ digits, s = digits ++ rest ∧ ∀ c ∈ digits, AddressChar c := by
  rw [xtoi] at h
  split at h
  · obtain ⟨-, rfl⟩ := Prod.mk.inj (Option.some.inj h)
    exact ⟨_, List.takeWhile_append_dropWhile.symm,
      fun c hc => Or.inl (List.mem_takeWhile_imp (p := fun c => (Text.hexDigit? c).isSome) hc)⟩
  · cases h

/-- After a colon there are more groups. -/
theorem addressChar_of_colon {room : Nat} {ip : IP} {ellipsis : Option Nat} {c c' : Char}
    {rest : List Char} {res : IP × Option Nat}
    (ih : ∀ {ip : IP} {ellipsis : Option Nat} {s : List Char},
      parseGroups room ip ellipsis s = some res → ∀ c ∈ s, AddressChar c)
    (h : (if c ≠ ':' then none
      else if c' = ':' then
        if ellipsis.isSome then none
        else if rest = [] then some (ip, some ip.length)
        else parseGroups room ip (some ip.length) rest
      else parseGroups room ip ellipsis (c' :: rest)) = some res) :
    ∀ x ∈ c :: c' :: rest, AddressChar x := by
  have hColon : c = ':' := by
    by_contra hNe
    rw [if_pos hNe] at h
    cases h
  rw [if_neg (not_not.mpr hColon)] at h
  have hTail : ∀ x ∈ c' :: rest, AddressChar x := by
    split_ifs at h with hTwo hEllipsis hEnd
    · rw [hEnd, hTwo]
      exact fun x hx => Or.inr (Or.inr (List.mem_singleton.mp hx))
    · rw [hTwo]
      intro x hx
      rcases List.mem_cons.mp hx with rfl | hx
      · exact Or.inr (Or.inr rfl)
      · exact ih h x hx
    · exact ih h
  intro x hx
  rcases List.mem_cons.mp hx with rfl | hx
  · exact Or.inr (Or.inr hColon)
  · exact hTail x hx

theorem addressChar_of_parseGroups {room : Nat} {ip : IP} {ellipsis : Option Nat} {s : List Char}
    {res : IP × Option Nat} (h : parseGroups room ip ellipsis s = some res) :
    ∀ c ∈ s, AddressChar c := by
  induction room generalizing ip ellipsis s with
  | zero =>
      rw [parseGroups] at h
      split_ifs at h with hNil
      rw [hNil]
      exact fun c hc => absurd hc List.not_mem_nil
  | succ room ih =>
      rw [parseGroups] at h
      split at h
      · cases h
      · next n rest hXtoi =>
          obtain ⟨digits, rfl, hDigits⟩ := xtoi_eq hXtoi
          have hRest : ∀ c ∈ rest, AddressChar c := by
            by_cases hBig : 65535 < n
            · rw [if_pos hBig] at h
              cases h
            rw [if_neg hBig] at h
            by_cases hDot : rest.head? = some '.'
            · rw [if_pos hDot] at h
              split_ifs at h
              split at h
              · cases h
              · next hIPv4 =>
                  exact fun c hc => addressChar_of_parseIPv4 hIPv4 c (List.mem_append_right _ hc)
            · rw [if_neg hDot] at h
              match rest, h with
              | [], _ => exact fun c hc => absurd hc List.not_mem_nil
              | c :: c' :: rest, h => exact addressChar_of_colon ih h
          intro c hc
          rcases List.mem_append.mp hc with hc | hc
          · exact hDigits c hc
          · exact hRest c hc

theorem addressChar_of_parseIPv6 {s : List Char} (h : parseIPv6 s ≠ []) :
    ∀ c ∈ s, AddressChar c := by
  have hGroups : ∀ {ellipsis : Option Nat} {t : List Char},
      ((parseGroups 8 [] ellipsis t).map expandEllipsis).getD [] ≠ [] →
        ∀ c ∈ t, AddressChar c := by
    intro ellipsis t hParse
    cases hRes : parseGroups 8 [] ellipsis t with
    | none =>
        rw [hRes] at hParse
        exact absurd rfl hParse
    | some res => exact addressChar_of_parseGroups hRes
  have hColons : ∀ {t : List Char}, (∀ c ∈ t, AddressChar c) →
      ∀ c ∈ ':' :: ':' :: t, AddressChar c := by
    intro t ht c hc
    rcases List.mem_cons.mp hc with rfl | hc
    · exact Or.inr (Or.inr rfl)
    rcases List.mem_cons.mp hc with rfl | hc
    · exact Or.inr (Or.inr rfl)
    · exact ht c hc
  unfold parseIPv6 at h
  split at h
  · exact hColons (fun c hc => absurd hc List.not_mem_nil)
  · exact hColons (hGroups h)
  · exact hGroups h

/-- The text of a subnet is its address, a slash and a number. -/
theorem addressChar_of_parseCIDR {s : String} {n : IPNet} (h : parseCIDR s = .ok n) :
    s ≠ "" ∧ ∀ c ∈ s.toList, AddressChar c ∨ c = '/' := by
  rw [parseCIDR] at h
  split at h
  · cases h
  · next slash bits hDrop =>
      have hText : s.toList = s.toList.takeWhile (· ≠ '/') ++ slash :: bits := by
        rw [← hDrop, List.takeWhile_append_dropWhile]
      have hSlash : slash = '/' := by
        have hHead := List.head?_dropWhile_not (fun c => decide (c ≠ '/')) s.toList
        rw [hDrop] at hHead
        simpa using hHead
      have hBits : ∀ c ∈ bits, AddressChar c := by
        cases hRead : Text.readNat bits with
        | none =>
            simp only [hRead] at h
            cases h
        | some m => exact fun c hc => .of_isDigit (Text.isDigit_of_readNat hRead c hc)
      have hAddr : ∀ c ∈ s.toList.takeWhile (· ≠ '/'), AddressChar c := by
        by_cases hIPv4 : parseIPv4 (s.toList.takeWhile (· ≠ '/')) = []
        · by_cases hIPv6 : parseIPv6 (s.toList.takeWhile (· ≠ '/')) = []
          · simp only [hIPv4, hIPv6, true_or, if_true] at h
            split at h <;> cases h
          · exact addressChar_of_parseIPv6 hIPv6
        · exact addressChar_of_parseIPv4 hIPv4
      constructor
      · rintro rfl
        simp at hDrop
      · intro c hc
        rw [hText] at hc
        rcases List.mem_append.mp hc with hc | hc
        · exact Or.inl (hAddr c hc)
        rcases List.mem_cons.mp hc with rfl | hc
        · exact Or.inr hSlash
        · exact Or.inl (hBits c hc)

end Characters

end Net
