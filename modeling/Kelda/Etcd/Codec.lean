import Kelda.DB.Rows
import Kelda.Lib.JsonCodec

/-! The JSON form of the rows that the minions exchange. IDs and Dockerfiles are
not part of it. -/
namespace Kelda.Etcd

open DB Json

/-- How a slice of rows is written and read. -/
structure SliceCodec (α : Type) where
  encode : α → Except String Json
  decode : Decoder α
  zero : α

namespace SliceCodec

variable {α : Type}

/-- The first row that is not written is the error of the whole slice. -/
def jsonMarshal (codec : SliceCodec α) (rows : List α) : Except String String := do
  let vs ← rows.mapM codec.encode
  .ok (print (indented 4) (ofSlice vs))

/-- The rows that are read, and the error that the callers drop. -/
def unmarshal (codec : SliceCodec α) (s : String) : List α × Option UnmarshalError :=
  Json.unmarshal (Decoder.slice codec.zero codec.decode) [] s

/-- The rows are read as they were written, up to what is not. -/
def RoundTrips (codec : SliceCodec α) (wire : α → α) (rows : List α) : Prop :=
  ∃ s, codec.jsonMarshal rows = .ok s ∧ codec.unmarshal s = (rows.map wire, none)

/-- The codec of rows that are always written. -/
def ofCodec (codec : Codec α) : SliceCodec α :=
  ⟨fun r => .ok (codec.encode r), codec.decode, codec.zero⟩

/-- Slices round-trip if their rows do. -/
theorem roundTrips_of_rows {codec : SliceCodec α} {wire : α → α} {rows : List α} (row : Codec α)
    (hEncode : ∀ r ∈ rows, codec.encode r = .ok (row.encode r))
    (hDecode : ∀ r ∈ rows, codec.decode (row.encode r) codec.zero = (wire r, .ok)) :
    codec.RoundTrips wire rows := by
  have hMap : rows.mapM codec.encode = .ok (rows.map row.encode) := by
    clear hDecode
    induction rows with
    | nil => rfl
    | cons r rows ih =>
        rw [List.mapM_cons, hEncode r (List.mem_cons_self ..),
          ih (fun r hr => hEncode r (List.mem_cons_of_mem _ hr))]
        rfl
  have hPrintable : Printable (ofSlice (rows.map row.encode)) := row.slice.printable rows
  refine ⟨print (indented 4) (ofSlice (rows.map row.encode)), ?_, ?_⟩
  · rw [jsonMarshal, hMap]
    rfl
  · rw [unmarshal, Json.unmarshal, hPrintable.parse_print (indented_blank 4)]
    simp only [slice_ofSlice hDecode]

end SliceCodec

section Rows

/-- The fields that are written of a connection. Its ID is not. -/
def connectionRow : Codec Connection :=
  .struct { id := 0 }
    [.of "From" Connection.fromHosts (fun x r => { r with fromHosts := x }) (.always (.slice .string)),
    .of "To" Connection.toHosts (fun x r => { r with toHosts := x }) (.always (.slice .string)),
    .of "MinPort" Connection.minPort (fun x r => { r with minPort := x }) (.always .int),
    .of "MaxPort" Connection.maxPort (fun x r => { r with maxPort := x }) (.always .int)]

def connectionCodec : SliceCodec Connection := .ofCodec connectionRow

/-- The database ID is not written. -/
def hostnameRow : Codec Hostname :=
  .struct { id := 0 }
    [.of "Hostname" Hostname.hostname (fun x r => { r with hostname := x }) (.always .string),
    .of "IP" Hostname.ip (fun x r => { r with ip := x }) (.always .string)]

def hostnameCodec : SliceCodec Hostname := .ofCodec hostnameRow

/-- The texts of times. A time that is out of range has none. -/
structure TimeFormat where
  text : Int → Option String
  parse : String → Option Int

/-- A null leaves the time as it is. -/
def timeDecoder (fmt : TimeFormat) : Decoder Int
  | .null, t => (t, .ok)
  | .str s, t =>
    match fmt.parse s with
    | some t => (t, .ok)
    | none => (t, .stopped)
  | _, t => (t, .stopped)

/-- A time is a structure and never left out. -/
def timeCodec (fmt : TimeFormat) : Codec Int :=
  ⟨0, fun _ => false, fun t => .str ((fmt.text t).getD ""), timeDecoder fmt, fun _ => .str _⟩

/-- A secret is an object with its name, and a text is a text. -/
def encodeContainerValue : Blueprint.ContainerValue → Json
  | .string value => .str value
  | .secret nameOfSecret => .obj [("NameOfSecret", .str nameOfSecret)]

/-- The structure of a secret has one field. -/
def secretDecoder : Decoder String :=
  Decoder.struct [.of "NameOfSecret" id (fun x _ => x) Decoder.string]

/-- A string, or else a secret with a name. -/
def unmarshalContainerValue (v : Json) : Option Blueprint.ContainerValue :=
  match Decoder.string v "" with
  | (s, .ok) => some (.string s)
  | _ =>
    match secretDecoder v "" with
    | (nameOfSecret, .ok) => if nameOfSecret = "" then none else some (.secret nameOfSecret)
    | _ => none

/-- Values are told apart by their types. -/
def containerValueCodec : Codec Blueprint.ContainerValue where
  zero := .string ""
  isEmpty := fun _ => false
  encode := encodeContainerValue
  decode := Decoder.custom unmarshalContainerValue
  printable := by
    intro value
    cases value with
    | string s => exact .str s
    | secret nameOfSecret =>
        refine .obj (fun f hf => ?_)
        rw [List.mem_singleton.mp hf]
        exact .str nameOfSecret

def volumeMountCodec : Codec Blueprint.VolumeMount :=
  .struct ⟨"", ""⟩
    [.of "VolumeName" Blueprint.VolumeMount.volumeName (fun x m => { m with volumeName := x }) .string,
    .of "MountPath" Blueprint.VolumeMount.mountPath (fun x m => { m with mountPath := x }) .string]

/-- The fields that are written of a container. Its ID and its Dockerfile are not. -/
def containerRow (fmt : TimeFormat) : Codec Container :=
  .struct { id := 0 }
    [.of "IP" Container.ip (fun x c => { c with ip := x }) .string,
    .of "Minion" Container.minion (fun x c => { c with minion := x }) .string,
    .of "BlueprintID" Container.blueprintID (fun x c => { c with blueprintID := x }) .string,
    .of "PodName" Container.podName (fun x c => { c with podName := x }) .string,
    .of "Status" Container.status (fun x c => { c with status := x }) .string,
    .of "Command" Container.command (fun x c => { c with command := x }) (.slice .string),
    .of "Env" Container.env (fun x c => { c with env := x }) (.map containerValueCodec),
    .of "FilepathToContent" Container.filepathToContent
      (fun x c => { c with filepathToContent := x }) (.map containerValueCodec),
    .of "Hostname" Container.hostname (fun x c => { c with hostname := x }) .string,
    .of "Created" Container.created (fun x c => { c with created := x }) (timeCodec fmt),
    .of "Privileged" Container.privileged (fun x c => { c with privileged := x }) .bool,
    .of "VolumeMounts" Container.volumeMounts (fun x c => { c with volumeMounts := x })
      (.slice volumeMountCodec),
    .of "Image" Container.image (fun x c => { c with image := x }) .string]

def encodeContainer (fmt : TimeFormat) (c : Container) : Except String Json :=
  match fmt.text c.created with
  | none => .error ("json: error calling MarshalJSON for type time.Time: " ++
    "Time.MarshalJSON: year outside of range [0,9999]")
  | some _ => .ok ((containerRow fmt).encode c)

def containerCodec (fmt : TimeFormat) : SliceCodec Container where
  encode := encodeContainer fmt
  decode := (containerRow fmt).decode
  zero := { id := 0 }

end Rows

section RoundTrip

/-- What is written of a row. -/
def wireConnection (c : Connection) : Connection := { c with id := 0 }

def wireHostname (r : Hostname) : Hostname := { r with id := 0 }

def wireContainer (c : Container) : Container := { c with id := 0, dockerfile := "" }

theorem returns_strings (xs : List String) : (Codec.string.slice).Returns xs :=
  .slice (fun x _ => .string x)

/-- Ports are integers of 64 bits in the source. -/
theorem connectionCodec_roundTrips {rows : List Connection}
    (hMin : ∀ c ∈ rows, -2 ^ 63 ≤ c.minPort ∧ c.minPort < 2 ^ 63)
    (hMax : ∀ c ∈ rows, -2 ^ 63 ≤ c.maxPort ∧ c.maxPort < 2 ^ 63) :
    connectionCodec.RoundTrips wireConnection rows := by
  apply SliceCodec.roundTrips_of_rows connectionRow (fun _ _ => rfl)
  intro c hc
  apply Reads.read
  refine .field rfl rfl rfl (returns_strings _).always ?_
  refine .field rfl rfl rfl (returns_strings _).always ?_
  refine .field rfl rfl rfl (Codec.Returns.int (hMin c hc)).always ?_
  refine .field rfl rfl rfl (Codec.Returns.int (hMax c hc)).always ?_
  exact .nil _ _

theorem hostnameCodec_roundTrips (rows : List Hostname) :
    hostnameCodec.RoundTrips wireHostname rows := by
  apply SliceCodec.roundTrips_of_rows hostnameRow (fun _ _ => rfl)
  intro r _
  apply Reads.read
  refine .field rfl rfl rfl (Codec.Returns.string _).always ?_
  refine .field rfl rfl rfl (Codec.Returns.string _).always ?_
  exact .nil _ _

/-- A secret without a name is refused. -/
theorem returns_containerValue {value : Blueprint.ContainerValue} (h : value ≠ .secret "") :
    containerValueCodec.Returns value := by
  refine ⟨?_, Bool.noConfusion⟩
  cases value with
  | string s => rfl
  | secret nameOfSecret =>
      have hName : nameOfSecret ≠ "" := fun hEmpty => h (by rw [hEmpty])
      have hRead : secretDecoder (.obj [("NameOfSecret", .str nameOfSecret)]) "" =
          (nameOfSecret, .ok) := rfl
      have hString : Decoder.string (.obj [("NameOfSecret", .str nameOfSecret)]) "" =
          ("", .mismatch) := rfl
      simp only [containerValueCodec, Decoder.custom, unmarshalContainerValue,
        encodeContainerValue, hString, hRead, if_neg hName]

theorem returns_values {m : StringMap Blueprint.ContainerValue}
    (h : ∀ key, m.lookup key ≠ some (.secret "")) : (Codec.map containerValueCodec).Returns m :=
  .map (fun key _ hLookup => returns_containerValue (fun hEmpty => h key (hEmpty ▸ hLookup)))

theorem returns_volumeMounts (ms : List Blueprint.VolumeMount) :
    (Codec.slice volumeMountCodec).Returns ms := by
  refine .slice (fun m _ => Reads.returns ?_)
  refine .field rfl rfl rfl (.string _) ?_
  refine .field rfl rfl rfl (.string _) ?_
  exact .nil _ _

/-- The containers whose rows are read as they were written. -/
structure Portable (fmt : TimeFormat) (c : Container) : Prop where
  created : ∃ text, fmt.text c.created = some text ∧ fmt.parse text = some c.created
  env : ∀ key, c.env.lookup key ≠ some (.secret "")
  files : ∀ key, c.filepathToContent.lookup key ≠ some (.secret "")

theorem Portable.returns_created {fmt : TimeFormat} {c : Container} (h : Portable fmt c) :
    (timeCodec fmt).Returns c.created := by
  obtain ⟨text, hText, hParse⟩ := h.created
  refine ⟨?_, Bool.noConfusion⟩
  simp only [timeCodec, hText, Option.getD_some, timeDecoder, hParse]

theorem containerCodec_roundTrips {fmt : TimeFormat} {rows : List Container}
    (h : ∀ c ∈ rows, Portable fmt c) : (containerCodec fmt).RoundTrips wireContainer rows := by
  apply SliceCodec.roundTrips_of_rows (containerRow fmt)
  · intro c hc
    obtain ⟨text, hText, -⟩ := (h c hc).created
    simp only [containerCodec, encodeContainer, hText]
  · intro c hc
    apply Reads.read
    refine .field rfl rfl rfl (.string _) ?_
    refine .field rfl rfl rfl (.string _) ?_
    refine .field rfl rfl rfl (.string _) ?_
    refine .field rfl rfl rfl (.string _) ?_
    refine .field rfl rfl rfl (.string _) ?_
    refine .field rfl rfl rfl (returns_strings _) ?_
    refine .field rfl rfl rfl (returns_values (h c hc).env) ?_
    refine .field rfl rfl rfl (returns_values (h c hc).files) ?_
    refine .field rfl rfl rfl (.string _) ?_
    refine .field rfl rfl rfl (h c hc).returns_created ?_
    refine .field rfl rfl rfl (.bool _) ?_
    refine .field rfl rfl rfl (returns_volumeMounts _) ?_
    refine .field rfl rfl rfl (.string _) ?_
    exact .nil _ _

end RoundTrip

end Kelda.Etcd
