import Kelda.Etcd.Codec

/-! The deployment representation of a blueprint. Fields with their zero value are
left out, but for the image of a container, which is a structure. -/
namespace Kelda.Blueprint

open Json Etcd

section Encoding

/-- The fields have the names and the order of the Go structures. -/
def Image.codec : Codec Image :=
  .struct ⟨"", ""⟩
    [.of "Name" Image.name (fun x r => { r with name := x }) .string,
    .of "Dockerfile" Image.dockerfile (fun x r => { r with dockerfile := x }) .string]

/-- Here the image is a structure, which is written in any case. -/
def Container.codec : Codec Container :=
  .struct ⟨"", ⟨"", ""⟩, [], ∅, ∅, "", false, []⟩
    [.of "ID" Container.id (fun x c => { c with id := x }) .string,
    .of "Image" Container.image (fun x c => { c with image := x }) Image.codec,
    .of "Command" Container.command (fun x c => { c with command := x }) (.slice .string),
    .of "Env" Container.env (fun x c => { c with env := x }) (.map containerValueCodec),
    .of "FilepathToContent" Container.filepathToContent
      (fun x c => { c with filepathToContent := x }) (.map containerValueCodec),
    .of "Hostname" Container.hostname (fun x c => { c with hostname := x }) .string,
    .of "Privileged" Container.privileged (fun x c => { c with privileged := x }) .bool,
    .of "VolumeMounts" Container.volumeMounts (fun x c => { c with volumeMounts := x })
      (.slice volumeMountCodec)]

def LoadBalancer.codec : Codec LoadBalancer :=
  .struct ⟨"", []⟩
    [.of "Name" LoadBalancer.name (fun x r => { r with name := x }) .string,
    .of "Hostnames" LoadBalancer.hostnames (fun x r => { r with hostnames := x }) (.slice .string)]

def Connection.codec : Codec Connection :=
  .struct ⟨[], [], 0, 0⟩
    [.of "From" Connection.fromHosts (fun x r => { r with fromHosts := x }) (.slice .string),
    .of "To" Connection.toHosts (fun x r => { r with toHosts := x }) (.slice .string),
    .of "MinPort" Connection.minPort (fun x r => { r with minPort := x }) .int,
    .of "MaxPort" Connection.maxPort (fun x r => { r with maxPort := x }) .int]

def Placement.codec : Codec Placement :=
  .struct ⟨"", false, "", "", "", ""⟩
    [.of "TargetContainer" Placement.targetContainer (fun x p => { p with targetContainer := x })
      .string,
    .of "Exclusive" Placement.exclusive (fun x p => { p with exclusive := x }) .bool,
    .of "Provider" Placement.provider (fun x p => { p with provider := x }) .string,
    .of "Size" Placement.size (fun x p => { p with size := x }) .string,
    .of "Region" Placement.region (fun x p => { p with region := x }) .string,
    .of "FloatingIP" Placement.floatingIP (fun x p => { p with floatingIP := x }) .string]

def Machine.codec : Codec Machine :=
  .struct ⟨"", "", "", 0, "", [], "", false⟩
    [.of "Provider" Machine.provider (fun x m => { m with provider := x }) .string,
    .of "Role" Machine.role (fun x m => { m with role := x }) .string,
    .of "Size" Machine.size (fun x m => { m with size := x }) .string,
    .of "DiskSize" Machine.diskSize (fun x m => { m with diskSize := x }) .int,
    .of "Region" Machine.region (fun x m => { m with region := x }) .string,
    .of "SSHKeys" Machine.sshKeys (fun x m => { m with sshKeys := x }) (.slice .string),
    .of "FloatingIP" Machine.floatingIP (fun x m => { m with floatingIP := x }) .string,
    .of "Preemptible" Machine.preemptible (fun x m => { m with preemptible := x }) .bool]

def Volume.codec : Codec Volume :=
  .struct ⟨"", "", ∅⟩
    [.of "Name" Volume.name (fun x v => { v with name := x }) .string,
    .of "Type" Volume.type (fun x v => { v with type := x }) .string,
    .of "Conf" Volume.conf (fun x v => { v with conf := x }) (.map .string)]

/-- What the decoder starts from. -/
def zero : Blueprint :=
  { containers := [], loadBalancers := [], connections := [], placements := [], machines := [] }

/-- All fields but the image are left out if they are empty. -/
def codec : Codec Blueprint :=
  .struct zero
    [.of "Containers" Blueprint.containers (fun x bp => { bp with containers := x })
      (.slice Container.codec),
    .of "LoadBalancers" Blueprint.loadBalancers (fun x bp => { bp with loadBalancers := x })
      (.slice LoadBalancer.codec),
    .of "Connections" Blueprint.connections (fun x bp => { bp with connections := x })
      (.slice Connection.codec),
    .of "Placements" Blueprint.placements (fun x bp => { bp with placements := x })
      (.slice Placement.codec),
    .of "Machines" Blueprint.machines (fun x bp => { bp with machines := x })
      (.slice Machine.codec),
    .of "Volumes" Blueprint.volumes (fun x bp => { bp with volumes := x }) (.slice Volume.codec),
    .of "AdminACL" Blueprint.adminACL (fun x bp => { bp with adminACL := x }) (.slice .string),
    .of "Namespace" Blueprint.nameSpace (fun x bp => { bp with nameSpace := x }) .string]

/-- The blueprint in its deployment representation. -/
def toString (bp : Blueprint) : String := print compact (codec.encode bp)

def fromJSON (jsonStr : String) : Except UnmarshalError Blueprint :=
  match unmarshal codec.decode zero jsonStr with
  | (bp, none) => .ok bp
  | (_, some err) => .error err

end Encoding

section RoundTrip

theorem Image.returns (img : Image) : Image.codec.Returns img := by
  apply Reads.returns
  refine .field rfl rfl rfl (.string _) ?_
  refine .field rfl rfl rfl (.string _) ?_
  exact .nil _ _

/-- Everything comes back but a secret without a name. -/
theorem Container.returns {c : Container} (hEnv : ∀ key, c.env.lookup key ≠ some (.secret ""))
    (hFiles : ∀ key, c.filepathToContent.lookup key ≠ some (.secret "")) :
    Container.codec.Returns c := by
  apply Reads.returns
  refine .field rfl rfl rfl (.string _) ?_
  refine .field rfl rfl rfl (Image.returns _) ?_
  refine .field rfl rfl rfl (returns_strings _) ?_
  refine .field rfl rfl rfl (returns_values hEnv) ?_
  refine .field rfl rfl rfl (returns_values hFiles) ?_
  refine .field rfl rfl rfl (.string _) ?_
  refine .field rfl rfl rfl (.bool _) ?_
  refine .field rfl rfl rfl (returns_volumeMounts _) ?_
  exact .nil _ _

theorem LoadBalancer.returns (lb : LoadBalancer) : LoadBalancer.codec.Returns lb := by
  apply Reads.returns
  refine .field rfl rfl rfl (.string _) ?_
  refine .field rfl rfl rfl (returns_strings _) ?_
  exact .nil _ _

/-- Ports come back if they are integers of the source. -/
theorem Connection.returns {c : Connection} (hMin : -2 ^ 63 ≤ c.minPort ∧ c.minPort < 2 ^ 63)
    (hMax : -2 ^ 63 ≤ c.maxPort ∧ c.maxPort < 2 ^ 63) : Connection.codec.Returns c := by
  apply Reads.returns
  refine .field rfl rfl rfl (returns_strings _) ?_
  refine .field rfl rfl rfl (returns_strings _) ?_
  refine .field rfl rfl rfl (.int hMin) ?_
  refine .field rfl rfl rfl (.int hMax) ?_
  exact .nil _ _

theorem Placement.returns (p : Placement) : Placement.codec.Returns p := by
  apply Reads.returns
  refine .field rfl rfl rfl (.string _) ?_
  refine .field rfl rfl rfl (.bool _) ?_
  refine .field rfl rfl rfl (.string _) ?_
  refine .field rfl rfl rfl (.string _) ?_
  refine .field rfl rfl rfl (.string _) ?_
  refine .field rfl rfl rfl (.string _) ?_
  exact .nil _ _

theorem Machine.returns {m : Machine} (hDisk : -2 ^ 63 ≤ m.diskSize ∧ m.diskSize < 2 ^ 63) :
    Machine.codec.Returns m := by
  apply Reads.returns
  refine .field rfl rfl rfl (.string _) ?_
  refine .field rfl rfl rfl (.string _) ?_
  refine .field rfl rfl rfl (.string _) ?_
  refine .field rfl rfl rfl (.int hDisk) ?_
  refine .field rfl rfl rfl (.string _) ?_
  refine .field rfl rfl rfl (returns_strings _) ?_
  refine .field rfl rfl rfl (.string _) ?_
  refine .field rfl rfl rfl (.bool _) ?_
  exact .nil _ _

theorem Volume.returns (v : Volume) : Volume.codec.Returns v := by
  apply Reads.returns
  refine .field rfl rfl rfl (.string _) ?_
  refine .field rfl rfl rfl (.string _) ?_
  refine .field rfl rfl rfl (.map (fun _ s _ => .string s)) ?_
  exact .nil _ _

/-- The blueprints that are read as they were written. A secret without a name is
refused, and integers have 64 bits in the source. -/
structure Portable (bp : Blueprint) : Prop where
  env : ∀ c ∈ bp.containers, ∀ key, c.env.lookup key ≠ some (.secret "")
  files : ∀ c ∈ bp.containers, ∀ key, c.filepathToContent.lookup key ≠ some (.secret "")
  minPorts : ∀ c ∈ bp.connections, -2 ^ 63 ≤ c.minPort ∧ c.minPort < 2 ^ 63
  maxPorts : ∀ c ∈ bp.connections, -2 ^ 63 ≤ c.maxPort ∧ c.maxPort < 2 ^ 63
  disks : ∀ m ∈ bp.machines, -2 ^ 63 ≤ m.diskSize ∧ m.diskSize < 2 ^ 63

/-- Field by field, a portable blueprint is read as it was written. -/
theorem Portable.read {bp : Blueprint} (h : Portable bp) :
    codec.decode (codec.encode bp) zero = (bp, .ok) := by
  apply Reads.read
  refine .field rfl rfl rfl (.slice (fun c hc => c.returns (h.env c hc) (h.files c hc))) ?_
  refine .field rfl rfl rfl (.slice (fun lb _ => lb.returns)) ?_
  refine .field rfl rfl rfl (.slice (fun c hc => c.returns (h.minPorts c hc) (h.maxPorts c hc))) ?_
  refine .field rfl rfl rfl (.slice (fun p _ => p.returns)) ?_
  refine .field rfl rfl rfl (.slice (fun m hm => m.returns (h.disks m hm))) ?_
  refine .field rfl rfl rfl (.slice (fun v _ => v.returns)) ?_
  refine .field rfl rfl rfl (returns_strings _) ?_
  refine .field rfl rfl rfl (.string _) ?_
  exact .nil _ _

end RoundTrip

section Refusal

/-- A secret without a name is written like a value, but not read as one. -/
theorem values_refuse {m : StringMap ContainerValue} {key : String}
    (h : m.lookup key = some (.secret "")) : (Codec.map containerValueCodec).Refuses m := by
  have hRead : unmarshalContainerValue (encodeContainerValue (.secret "")) = none := by decide
  refine .map h (fun value hOk => ?_)
  simp only [containerValueCodec, Decoder.custom, hRead] at hOk
  cases hOk

/-- A map with such a value is written. -/
theorem decide_eq_empty {m : StringMap ContainerValue} {key : String} {value : ContainerValue}
    (h : m.lookup key = some value) : decide (m = ∅) = false := by
  apply decide_eq_false
  intro hEmpty
  rw [hEmpty, Finmap.lookup_empty] at h
  cases h

/-- The decoder stops at the environment, whatever the fields before it are. -/
theorem env_refuses {c : Container} {key : String} (h : c.env.lookup key = some (.secret "")) :
    Container.codec.Refuses c := by
  apply Blocked.refuses
  apply Blocked.skip
  apply Blocked.skip
  apply Blocked.skip
  exact .field rfl (values_refuse h) (decide_eq_empty h)

theorem files_refuses {c : Container} {key : String}
    (h : c.filepathToContent.lookup key = some (.secret "")) : Container.codec.Refuses c := by
  apply Blocked.refuses
  apply Blocked.skip
  apply Blocked.skip
  apply Blocked.skip
  apply Blocked.skip
  exact .field rfl (values_refuse h) (decide_eq_empty h)

/-- A port outside the integers of the source is not zero, so it is written. -/
theorem minPort_refuses {c : Connection} (h : ¬(-2 ^ 63 ≤ c.minPort ∧ c.minPort < 2 ^ 63)) :
    Connection.codec.Refuses c := by
  apply Blocked.refuses
  apply Blocked.skip
  apply Blocked.skip
  exact .field rfl (.int h) (decide_eq_false (by omega))

theorem maxPort_refuses {c : Connection} (h : ¬(-2 ^ 63 ≤ c.maxPort ∧ c.maxPort < 2 ^ 63)) :
    Connection.codec.Refuses c := by
  apply Blocked.refuses
  apply Blocked.skip
  apply Blocked.skip
  apply Blocked.skip
  exact .field rfl (.int h) (decide_eq_false (by omega))

theorem diskSize_refuses {m : Machine} (h : ¬(-2 ^ 63 ≤ m.diskSize ∧ m.diskSize < 2 ^ 63)) :
    Machine.codec.Refuses m := by
  apply Blocked.refuses
  apply Blocked.skip
  apply Blocked.skip
  apply Blocked.skip
  exact .field rfl (.int h) (decide_eq_false (by omega))

variable {bp : Blueprint}

/-- A slice with an element is written. -/
theorem isEmpty_eq_false {α : Type} {xs : List α} {x : α} (h : x ∈ xs) : xs.isEmpty = false :=
  List.isEmpty_eq_false_iff.mpr (List.ne_nil_of_mem h)

/-- A blueprint is refused with any of its containers. -/
theorem containers_refuse {c : Container} (hc : c ∈ bp.containers) (h : Container.codec.Refuses c) :
    codec.Refuses bp := by
  apply Blocked.refuses
  exact .field rfl (.slice hc h) (isEmpty_eq_false hc)

theorem connections_refuse {c : Connection} (hc : c ∈ bp.connections)
    (h : Connection.codec.Refuses c) : codec.Refuses bp := by
  apply Blocked.refuses
  apply Blocked.skip
  apply Blocked.skip
  exact .field rfl (.slice hc h) (isEmpty_eq_false hc)

theorem machines_refuse {m : Machine} (hm : m ∈ bp.machines) (h : Machine.codec.Refuses m) :
    codec.Refuses bp := by
  apply Blocked.refuses
  apply Blocked.skip
  apply Blocked.skip
  apply Blocked.skip
  apply Blocked.skip
  exact .field rfl (.slice hm h) (isEmpty_eq_false hm)

/-- Each condition of a portable blueprint is needed. -/
theorem portable_of_decode (h : (codec.decode (codec.encode bp) zero).2 = .ok) : Portable bp where
  env := fun _ hc _ hLookup => containers_refuse hc (env_refuses hLookup) zero h
  files := fun _ hc _ hLookup => containers_refuse hc (files_refuses hLookup) zero h
  minPorts := fun _ hc => by_contra fun hPort => connections_refuse hc (minPort_refuses hPort) zero h
  maxPorts := fun _ hc => by_contra fun hPort => connections_refuse hc (maxPort_refuses hPort) zero h
  disks := fun _ hm => by_contra fun hDisk => machines_refuse hm (diskSize_refuses hDisk) zero h

/-- A blueprint that is read back at all is the one that was written. -/
theorem fromJSON_toString_iff {bp' : Blueprint} :
    fromJSON bp.toString = .ok bp' ↔ Portable bp ∧ bp' = bp := by
  have hParse : parse bp.toString = some (codec.encode bp) :=
    (codec.printable bp).parse_print compact_blank
  rw [fromJSON, unmarshal, hParse]
  constructor
  · intro h
    have hPortable : Portable bp := by
      apply portable_of_decode
      cases hDecode : codec.decode (codec.encode bp) zero with
      | mk a st =>
          simp only [hDecode] at h
          cases st with
          | ok => rfl
          | mismatch => cases h
          | stopped => cases h
    simp only [hPortable.read, Except.ok.injEq] at h
    exact ⟨hPortable, h.symm⟩
  · rintro ⟨hPortable, rfl⟩
    simp only [hPortable.read]

/-- What arrives is what was sent, and is written in the same way again. -/
theorem fromJSON_toString_portable {bp : Blueprint} (h : Portable bp) :
    fromJSON bp.toString = .ok bp ∧
      ∀ bp', fromJSON bp.toString = .ok bp' → bp'.toString = bp.toString := by
  refine ⟨fromJSON_toString_iff.mpr ⟨h, rfl⟩, fun bp' hRead => ?_⟩
  rw [(fromJSON_toString_iff.mp hRead).2]

/-- A container with a secret, next to a text that looks like one. -/
def secretBlueprint : Blueprint where
  containers :=
    [{ id := "1", image := ⟨"alpine", ""⟩, command := ["sh", "-c", ""]
       env := ((∅ : StringMap ContainerValue).insert "KEY" (.secret "key")).insert "TEXT"
         (.string "\x7b\"NameOfSecret\":\"key\"\x7d")
       filepathToContent := (∅ : StringMap ContainerValue).insert "/empty" (.string "")
       hostname := "app", privileged := false, volumeMounts := [⟨"disk", "/data"⟩] }]
  loadBalancers := [⟨"lb", ["app"]⟩]
  connections := [⟨["public"], ["lb"], 80, 80⟩]
  placements := []
  machines := [⟨"Amazon", "Worker", "m3.medium", 32, "us-west-1", ["key"], "", true⟩]
  adminACL := ["0.0.0.0/0"]
  nameSpace := "prod"

/-- Values are added to a map one after another. -/
theorem lookup_insert_ne {m : StringMap ContainerValue} {value value' : ContainerValue}
    (h : ∀ key, m.lookup key ≠ some value) (hNe : value' ≠ value) (name : String) :
    ∀ key, (m.insert name value').lookup key ≠ some value := by
  intro key
  by_cases hKey : key = name
  · rw [hKey, Finmap.lookup_insert]
    exact fun hEq => hNe (Option.some.inj hEq)
  · rw [Finmap.lookup_insert_of_ne m hKey]
    exact h key

theorem fromJSON_toString_portable_secret :
    Portable secretBlueprint ∧ fromJSON secretBlueprint.toString = .ok secretBlueprint := by
  have hNone : ∀ key, (∅ : StringMap ContainerValue).lookup key ≠ some (.secret "") := by simp
  have hPortable : Portable secretBlueprint := by
    constructor
    · intro c hc
      rw [List.mem_singleton.mp hc]
      exact lookup_insert_ne (lookup_insert_ne hNone (by decide) _) (by decide) _
    · intro c hc
      rw [List.mem_singleton.mp hc]
      exact lookup_insert_ne hNone (by decide) _
    · decide
    · decide
    · decide
  exact ⟨hPortable, (fromJSON_toString_portable hPortable).1⟩

end Refusal

end Kelda.Blueprint
