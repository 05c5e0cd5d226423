import Noda.Connmgr.Manager
import Noda.Lib.Base64
import Noda.Lib.Utf8

/-!
# Cross-instance sync

`EndpointService.Send` and `SendSSE` deliver to the local manager and publish an envelope; `deliver` hands the
envelope of another instance to its manager.  In between the envelope is encoded as JSON twice, by the publisher and
by the receiver, and each encoding replaces what is not UTF-8 in a string (`Utf8.sanitize`).

The payload is protected: one that is not UTF-8 travels as base64.  The channel, the event and the id are not.  They
arrive as they were sent exactly when they are UTF-8 (`sync_exact`, `sync_not_exact`).
-/

namespace Noda.Connmgr

/-- The strings of an envelope that are compared with constants. -/
def ws : GoString := [0x77, 0x73]

def sse : GoString := [0x73, 0x73, 0x65]

def b64 : GoString := [0x62, 0x36, 0x34]

structure Envelope where
  v : Int
  instance_ : GoString
  kind : GoString
  channel : GoString
  payload : GoString
  enc : GoString
  event : GoString
  id : GoString
  deriving DecidableEq, Repr

/-! ### JSON -/

/-- The values of the fields of an envelope. -/
inductive Json where
  | num (n : Int)
  | str (s : GoString)
  deriving DecidableEq, Repr

/-- An object as it is decoded. -/
abbrev JsonObject := List (String × Json)

/-- A value after it is encoded and decoded. -/
def Json.transport : Json → Json
  | .num n => .num n
  | .str s => .str (Utf8.sanitize s)

/-- An object after it is encoded and decoded; the names of the fields are ASCII. -/
def transport (o : JsonObject) : JsonObject := o.map fun f => (f.1, f.2.transport)

/-- A field with `omitempty`. -/
def omitempty (name : String) (s : GoString) : JsonObject := if s = [] then [] else [(name, .str s)]

/-- The fields of an envelope, before their strings are encoded. -/
def Envelope.fields (env : Envelope) : JsonObject :=
  [("v", .num env.v), ("instance", .str env.instance_), ("kind", .str env.kind), ("channel", .str env.channel),
    ("payload", .str env.payload)] ++ omitempty "enc" env.enc ++ omitempty "event" env.event ++ omitempty "id" env.id

/-- A field of type `int`; `none` is an error. -/
def JsonObject.int (o : JsonObject) (name : String) : Option Int :=
  match o.lookup name with
  | none => some 0
  | some (.num n) => some n
  | some (.str _) => none

def JsonObject.string (o : JsonObject) (name : String) : Option GoString :=
  match o.lookup name with
  | none => some []
  | some (.str s) => some s
  | some (.num _) => none

/-- `json.Unmarshal` into an `Envelope`. -/
def JsonObject.envelope (o : JsonObject) : Option Envelope := do
  let v ← o.int "v"
  let instance_ ← o.string "instance"
  let kind ← o.string "kind"
  let channel ← o.string "channel"
  let payload ← o.string "payload"
  let enc ← o.string "enc"
  let event ← o.string "event"
  let id ← o.string "id"
  return ⟨v, instance_, kind, channel, payload, enc, event, id⟩

/-! ### The bridge -/

/-- The id of an instance is a UUID. -/
abbrev InstanceID := { id : GoString // Utf8.valid id = true }

/-- The characters of a text in base64 as bytes, and back. -/
def ofChars (cs : List Char) : GoString := cs.map fun c => UInt8.ofNat c.toNat

def toChars (s : GoString) : List Char := s.map fun b => Char.ofNat b.toNat

/-- `Publish`: the object that the subscribers receive. -/
def publish (instanceID : InstanceID) (env : Envelope) : JsonObject :=
  let env := { env with v := 2 }
  let env :=
    if Utf8.valid env.payload then env
    else { env with enc := b64, payload := ofChars (Base64.encodeStd env.payload) }
  transport { env with instance_ := instanceID.1 }.fields

/-- `deliver`: the call of the manager, if there is one. -/
def deliver (V : Type) (instanceID : InstanceID) (payload : JsonObject) : Option (Request V) :=
  match (transport payload).envelope with
  | none => none
  | some env =>
    if env.instance_ = instanceID.1 then none
    else if env.v ≠ 2 then none
    else
      let data :=
        if env.enc = b64 then (Base64.decodeStd (toChars env.payload)).map Data.bytes else some (.string env.payload)
      match data with
      | none => none
      | some data =>
        if env.kind = ws then some (.send env.channel data)
        else if env.kind = sse then some (.sendSSE env.channel env.event data env.id)
        else none

variable {V E : Type}

/-- The envelope that `EndpointService` publishes for a call, once the data is marshalled. -/
def Request.envelope (payload : GoString) : Request V → Envelope
  | .send channel _ => ⟨0, [], ws, channel, payload, [], [], []⟩
  | .sendSSE channel event _ id => ⟨0, [], sse, channel, payload, [], event, id⟩

def Request.data : Request V → Data V
  | .send _ data | .sendSSE _ _ data _ => data

/-- `EndpointService.Send` and `SendSSE`: what the local manager sends, and what is published; `none` is an error. -/
def endpointSend (marshal : V → Except E GoString) (instanceID : InstanceID) (request : Request V) :
    Option (Message × JsonObject) :=
  match request.prepare marshal with
  | .error _ => none
  | .ok message =>
    match marshalData marshal request.data with
    | .error _ => none
    | .ok payload => some (message, publish instanceID (request.envelope payload))

/-- What is expected of a successful send on the instance `publisher`: every other instance of the network calls its
manager once, with the same channel, and its manager sends the same message; the publisher does not. -/
structure Exact (marshal : V → Except E GoString) (network : List InstanceID) (publisher : InstanceID)
    (request : Request V)
    (message : Message) (object : JsonObject) : Prop where
  others : ∀ receiver ∈ network, receiver ≠ publisher → ∃ request', deliver V receiver object = some request' ∧
    request'.channel = request.channel ∧ request'.prepare marshal = .ok message
  publisher : deliver V publisher object = none

/-- The strings of a call that travel as they are. -/
def Request.names : Request V → List GoString
  | .send channel _ => [channel]
  | .sendSSE channel event _ id => [channel, event, id]

/-! ### Transport -/

/-- A string after both encodings. -/
def twice (s : GoString) : GoString := Utf8.sanitize (Utf8.sanitize s)

private theorem twice_of_valid {s : GoString} (h : Utf8.valid s = true) : twice s = s :=
  Utf8.sanitize_sanitize_eq_self.2 h

private theorem lookup_transport (o : JsonObject) (name : String) :
    (transport o).lookup name = (o.lookup name).map Json.transport := by
  induction o with
  | nil => rfl
  | cons f o ih =>
    obtain ⟨name', value⟩ := f
    rw [transport, List.map_cons, List.lookup_cons, List.lookup_cons]
    cases name == name' with
    | true => rfl
    | false => exact ih

private theorem string_transport (o : JsonObject) (name : String) :
    (transport o).string name = (o.string name).map Utf8.sanitize := by
  rw [JsonObject.string, JsonObject.string, lookup_transport]
  cases o.lookup name with
  | none => rfl
  | some value => cases value <;> rfl

private theorem int_transport (o : JsonObject) (name : String) : (transport o).int name = o.int name := by
  rw [JsonObject.int, JsonObject.int, lookup_transport]
  cases o.lookup name with
  | none => rfl
  | some value => cases value <;> rfl

private theorem lookup_omitempty (name name' : String) (s : GoString) :
    (omitempty name s).lookup name' = if name' = name ∧ s ≠ [] then some (.str s) else none := by
  unfold omitempty
  split_ifs with hs hname hname
  · exact absurd hs hname.2
  · rfl
  · rw [hname.1]
    simp
  · have hne : name' ≠ name := fun heq => hname ⟨heq, hs⟩
    simp [List.lookup_cons, beq_false_of_ne hne]

private theorem fields_read (env : Envelope) :
    env.fields.int "v" = some env.v ∧ env.fields.string "instance" = some env.instance_ ∧
      env.fields.string "kind" = some env.kind ∧ env.fields.string "channel" = some env.channel ∧
      env.fields.string "payload" = some env.payload ∧ env.fields.string "enc" = some env.enc ∧
      env.fields.string "event" = some env.event ∧ env.fields.string "id" = some env.id := by
  refine ⟨rfl, rfl, rfl, rfl, rfl, ?_, ?_, ?_⟩
  all_goals
    simp only [JsonObject.string, Envelope.fields, List.cons_append, List.nil_append, List.append_assoc,
      List.lookup_append, lookup_omitempty, List.lookup_cons]
  · by_cases henc : env.enc = [] <;> simp [henc]
  · by_cases hevent : env.event = [] <;> simp [hevent]
  · by_cases hid : env.id = [] <;> simp [hid]

/-- What the receiver reads: each string after both encodings. -/
private theorem envelope_transport (env : Envelope) : (transport (transport env.fields)).envelope = some
    ⟨env.v, twice env.instance_, twice env.kind, twice env.channel, twice env.payload, twice env.enc, twice env.event,
      twice env.id⟩ := by
  obtain ⟨hv, hinstance, hkind, hchannel, hpayload, henc, hevent, hid⟩ := fields_read env
  simp [JsonObject.envelope, int_transport, string_transport, hv, hinstance, hkind, hchannel, hpayload, henc,
    hevent, hid, twice]

/-! ### The payload -/

private theorem ascii_char {bs : GoString} {c : Char} (h : c ∈ Base64.encodeStd bs) : c.toNat < 0x80 := by
  have halphabet : Base64.alphabet.all (fun c => c.toNat < 0x80) = true := by decide +kernel
  rcases Base64.mem_encodeStd h with h | rfl
  · exact of_decide_eq_true (List.all_eq_true.1 halphabet c h)
  · decide

private theorem valid_ofChars (bs : GoString) : Utf8.valid (ofChars (Base64.encodeStd bs)) = true := by
  refine Utf8.valid_of_ascii fun b hb => ?_
  obtain ⟨c, hc, rfl⟩ := List.mem_map.1 hb
  have hlt := ascii_char hc
  rw [UInt8.lt_iff_toNat_lt, UInt8.toNat_ofNat']
  exact Nat.lt_of_le_of_lt (Nat.mod_le _ _) hlt

private theorem toChars_ofChars (bs : GoString) : toChars (ofChars (Base64.encodeStd bs)) = Base64.encodeStd bs := by
  rw [toChars, ofChars, List.map_map]
  refine (List.map_congr_left fun c hc => ?_).trans (List.map_id _)
  have hlt := ascii_char hc
  simp only [Function.comp_apply, UInt8.toNat_ofNat', id_eq]
  rw [Nat.mod_eq_of_lt (by omega), Char.ofNat_toNat]

/-- The data that the receiver hands to its manager. -/
def received (V : Type) (payload : GoString) : Data V := if Utf8.valid payload then .string payload else .bytes payload

private theorem marshalData_received (marshal : V → Except E GoString) (payload : GoString) :
    marshalData marshal (received V payload) = .ok payload := by
  unfold received
  split_ifs
  · rfl
  · rfl

/-- The call that the receiver makes. -/
def Request.received (payload : GoString) : Request V → Request V
  | .send channel _ => .send (twice channel) (Connmgr.received V payload)
  | .sendSSE channel event _ id => .sendSSE (twice channel) (twice event) (Connmgr.received V payload) (twice id)

/-- The receiver's side, for an envelope of version 2 with the two encodings of a payload. -/
private theorem deliver_transport {publisher receiver : InstanceID} {env : Envelope} {data : Data V}
    (hinstance : env.instance_ = publisher.1) (hne : publisher ≠ receiver) (hv : env.v = 2)
    (hkind : Utf8.valid env.kind = true)
    (hdata : (if twice env.enc = b64 then (Base64.decodeStd (toChars (twice env.payload))).map Data.bytes
      else some (.string (twice env.payload))) = some data) :
    deliver V receiver (transport env.fields) =
      if env.kind = ws then some (.send (twice env.channel) data)
      else if env.kind = sse then some (.sendSSE (twice env.channel) (twice env.event) data (twice env.id))
      else none := by
  have hid : twice env.instance_ ≠ receiver.1 := by
    rw [hinstance, twice_of_valid publisher.2]
    exact fun heq => hne (Subtype.ext heq)
  unfold deliver
  rw [envelope_transport]
  simp only [if_neg hid, hv, ne_eq, not_true_eq_false, if_false, hdata, twice_of_valid hkind]

private theorem publish_envelope (publisher : InstanceID) (request : Request V) (payload : GoString) :
    ∃ enc payload', publish publisher (request.envelope payload) = transport { request.envelope payload with
        v := 2, instance_ := publisher.1, enc := enc, payload := payload' }.fields ∧
      (if twice enc = b64 then (Base64.decodeStd (toChars (twice payload'))).map Data.bytes
        else some (.string (twice payload'))) = some (received V payload) := by
  have hpayload : (request.envelope payload).payload = payload := by cases request <;> rfl
  have henc : (request.envelope payload).enc = [] := by cases request <;> rfl
  by_cases hvalid : Utf8.valid payload = true
  · refine ⟨[], payload, ?_, ?_⟩
    · rw [publish]
      simp only [hpayload, hvalid, if_true]
      rw [← henc]
    · have hempty : twice [] ≠ b64 := by decide
      rw [if_neg hempty, twice_of_valid hvalid, received, if_pos hvalid]
  · refine ⟨b64, ofChars (Base64.encodeStd payload), ?_, ?_⟩
    · rw [publish]
      simp only [hpayload, hvalid, if_false, Bool.false_eq_true]
    · have hb64 : twice b64 = b64 := by decide
      rw [if_pos hb64, twice_of_valid (valid_ofChars payload), toChars_ofChars, Base64.decodeStd_encodeStd, received,
        if_neg hvalid]
      rfl

private theorem deliver_publish {publisher receiver : InstanceID} (hne : publisher ≠ receiver) (request : Request V)
    (payload : GoString) :
    deliver V receiver (publish publisher (request.envelope payload)) = some (request.received payload) := by
  obtain ⟨enc, payload', hpublish, hdata⟩ := publish_envelope publisher request payload
  rw [hpublish]
  cases request with
  | send channel data =>
    have hkind : Utf8.valid ws = true := by decide
    exact deliver_transport rfl hne rfl hkind hdata
  | sendSSE channel event data id =>
    have hkind : Utf8.valid sse = true := by decide
    exact deliver_transport rfl hne rfl hkind hdata

private theorem deliver_publish_self (publisher : InstanceID) (request : Request V) (payload : GoString) :
    deliver V publisher (publish publisher (request.envelope payload)) = none := by
  obtain ⟨enc, payload', hpublish, -⟩ := publish_envelope publisher request payload
  rw [hpublish, deliver, envelope_transport]
  simp only [twice_of_valid publisher.2, if_true]

/-! ### Exactness -/

/-- The message of a call, once the data is marshalled. -/
def Request.message (payload : GoString) : Request V → Message
  | .send _ _ => .ws payload
  | .sendSSE _ event _ id => .sse event payload id

variable {marshal : V → Except E GoString} {publisher : InstanceID} {request : Request V} {message : Message}
  {object : JsonObject}

private theorem prepare_eq_ok : request.prepare marshal = .ok message ↔ 0x2A ∉ request.channel ∧
    ∃ payload, marshalData marshal request.data = .ok payload ∧ message = request.message payload := by
  cases request with
  | send channel data =>
    simp only [Request.prepare, Request.channel, Request.data, Request.message]
    by_cases hpattern : 0x2A ∈ channel
    · simp [hpattern]
    · cases marshalData marshal data with
      | error err => simp [hpattern]
      | ok payload => simp [hpattern, eq_comm]
  | sendSSE channel event data id =>
    simp only [Request.prepare, Request.channel, Request.data, Request.message]
    by_cases hpattern : 0x2A ∈ channel
    · simp [hpattern]
    · cases marshalData marshal data with
      | error err => simp [hpattern]
      | ok payload => simp [hpattern, eq_comm]

private theorem endpointSend_spec (h : endpointSend marshal publisher request = some (message, object)) :
    ∃ payload, 0x2A ∉ request.channel ∧ message = request.message payload ∧
      object = publish publisher (request.envelope payload) := by
  unfold endpointSend at h
  cases hprepare : request.prepare marshal with
  | error err =>
    rw [hprepare] at h
    cases h
  | ok message' =>
    obtain ⟨hliteral, payload, hdata, hmessage⟩ := prepare_eq_ok.1 hprepare
    simp only [hprepare, hdata, Option.some.injEq, Prod.mk.injEq] at h
    obtain ⟨rfl, rfl⟩ := h
    exact ⟨payload, hliteral, hmessage, rfl⟩

/-- The receiver makes the call that was made, exactly when the strings that travel as they are are UTF-8. -/
private theorem received_exact (hliteral : 0x2A ∉ request.channel) (payload : GoString) :
    ((request.received payload).channel = request.channel ∧
        (request.received payload).prepare marshal = .ok (request.message payload)) ↔
      ∀ name ∈ request.names, Utf8.valid name = true := by
  have htwice : ∀ s : GoString, twice s = s ↔ Utf8.valid s = true := fun s => Utf8.sanitize_sanitize_eq_self
  rw [prepare_eq_ok]
  cases request with
  | send channel data =>
    simp only [Request.received, Request.channel, Request.data, marshalData_received, Request.message, Request.names,
      List.forall_mem_singleton]
    constructor
    · exact fun h => (htwice channel).1 h.1
    · intro h
      rw [(htwice channel).2 h]
      exact ⟨rfl, hliteral, payload, rfl, rfl⟩
  | sendSSE channel event data id =>
    simp only [Request.received, Request.channel, Request.data, marshalData_received, Request.message, Request.names,
      List.forall_mem_cons, List.not_mem_nil, false_implies, implies_true, and_true]
    constructor
    · rintro ⟨hchannel, -, payload', -, heq⟩
      simp only [Message.sse.injEq] at heq
      exact ⟨(htwice channel).1 hchannel, (htwice event).1 heq.1.symm, (htwice id).1 heq.2.2.symm⟩
    · rintro ⟨hchannel, hevent, hid⟩
      rw [(htwice channel).2 hchannel, (htwice event).2 hevent, (htwice id).2 hid]
      exact ⟨rfl, hliteral, payload, rfl, rfl⟩

/-- A send is exact, exactly when the strings that travel as they are are UTF-8 or nobody else is there. -/
theorem sync_exact (h : endpointSend marshal publisher request = some (message, object)) (network : List InstanceID) :
    Exact marshal network publisher request message object ↔
      ((∃ receiver ∈ network, receiver ≠ publisher) → ∀ name ∈ request.names, Utf8.valid name = true) := by
  obtain ⟨payload, hliteral, rfl, rfl⟩ := endpointSend_spec h
  have hexact := @received_exact V E marshal request hliteral payload
  constructor
  · rintro hothers ⟨receiver, hmem, hne⟩
    obtain ⟨request', hdeliver, hcall⟩ := hothers.others receiver hmem hne
    rw [deliver_publish hne.symm] at hdeliver
    obtain rfl := Option.some.inj hdeliver
    exact hexact.1 hcall
  · intro hvalid
    refine ⟨fun receiver hmem hne => ?_, deliver_publish_self publisher request payload⟩
    exact ⟨_, deliver_publish hne.symm request payload, hexact.2 (hvalid ⟨receiver, hmem, hne⟩)⟩

/-- Two instances. -/
def first : InstanceID := ⟨[0x41], by decide⟩

def second : InstanceID := ⟨[0x42], by decide⟩

/-- A payload that is not UTF-8 arrives. -/
theorem sync_exact_payload : ∃ message object,
    endpointSend marshalNil first (.sendSSE [0x61] [0x65] (.bytes [0xFF, 0x00]) [0x31]) = some (message, object) ∧
      Exact marshalNil [first, second] first (.sendSSE [0x61] [0x65] (.bytes [0xFF, 0x00]) [0x31]) message object := by
  refine ⟨_, _, rfl, (sync_exact rfl [first, second]).2 fun _ => ?_⟩
  show ∀ name ∈ [[0x61], [0x65], [0x31]], Utf8.valid name = true
  decide

/-- A channel that is not UTF-8 does not: the receiver sends to the channel U+FFFD. -/
theorem sync_not_exact : ∃ message object,
    endpointSend marshalNil first (.send [0xFF] (.string [0x68, 0x69])) = some (message, object) ∧
      ¬Exact marshalNil [first, second] first (.send [0xFF] (.string [0x68, 0x69])) message object := by
  refine ⟨_, _, rfl, fun h => ?_⟩
  obtain ⟨request', hdeliver, hchannel, -⟩ := h.others second (by decide) (by decide)
  have hreceived := deliver_publish (show first ≠ second by decide) (.send [0xFF] (.string [0x68, 0x69]) : Request Unit)
    [0x68, 0x69]
  obtain rfl := Option.some.inj (hdeliver.symm.trans hreceived)
  exact absurd hchannel (by decide)

end Noda.Connmgr
