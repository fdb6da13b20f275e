import Lrlb.Lib.Wire
import Lrlb.Lib.Word
import Lrlb.Proto.Messages

/-! How the messages between a client and its agent are written and read. As in proto3, a
scalar that is zero is not written, and a field with an unknown number or an unexpected wire
type is ignored. -/
namespace Lrlb.Proto
open Lib Lib.Message

def int32Field (n : FieldNumber) (x : Int32) : List Field :=
  if x = 0 then [] else [⟨n, .varint (signExtend x)⟩]

def uint32Field (n : FieldNumber) (x : UInt32) : List Field :=
  if x = 0 then [] else [⟨n, .varint x.toUInt64⟩]

def messageField {M : Type} [Message M] (n : FieldNumber) (m : M) : Field :=
  ⟨n, .bytes (serialize m)⟩

def field1 : FieldNumber := ⟨1, by decide⟩
def field2 : FieldNumber := ⟨2, by decide⟩
def field3 : FieldNumber := ⟨3, by decide⟩
def field4 : FieldNumber := ⟨4, by decide⟩
def field5 : FieldNumber := ⟨5, by decide⟩

instance : Message HostInfo where
  init := { }
  fields m := int32Field field1 m.ip ++ int32Field field2 m.port
  merge m f :=
    match f.number.val, f.value with
    | 1, .varint w => ({ m with ip := lowInt w }, true)
    | 2, .varint w => ({ m with port := lowInt w }, true)
    | _, _ => (m, true)

/-- Reading an embedded host into what the field already holds. -/
def mergeHost (host : Option HostInfo) (bs : List UInt8) : HostInfo × Bool :=
  mergeFrom (host.getD { }) bs

instance : Message GetRouteRequest where
  init := { }
  fields m := int32Field field1 m.modid ++ int32Field field2 m.cmdid
  merge m f :=
    match f.number.val, f.value with
    | 1, .varint w => ({ m with modid := lowInt w }, true)
    | 2, .varint w => ({ m with cmdid := lowInt w }, true)
    | _, _ => (m, true)

instance : Message GetRouteResponse where
  init := { }
  fields m := int32Field field1 m.modid ++ int32Field field2 m.cmdid ++
    m.host.map (messageField field3)
  merge m f :=
    match f.number.val, f.value with
    | 1, .varint w => ({ m with modid := lowInt w }, true)
    | 2, .varint w => ({ m with cmdid := lowInt w }, true)
    | 3, .bytes bs =>
      let (h, ok) := mergeHost none bs
      ({ m with host := m.host ++ [h] }, ok)
    | _, _ => (m, true)

instance : Message GetHostRequest where
  init := { }
  fields m := uint32Field field1 m.seq ++ int32Field field2 m.modid ++ int32Field field3 m.cmdid
  merge m f :=
    match f.number.val, f.value with
    | 1, .varint w => ({ m with seq := w.toUInt32 }, true)
    | 2, .varint w => ({ m with modid := lowInt w }, true)
    | 3, .varint w => ({ m with cmdid := lowInt w }, true)
    | _, _ => (m, true)

instance : Message GetHostResponse where
  init := { }
  fields m := uint32Field field1 m.seq ++ int32Field field2 m.modid ++ int32Field field3 m.cmdid ++
    int32Field field4 m.retcode ++ (m.host.map (messageField field5)).toList
  merge m f :=
    match f.number.val, f.value with
    | 1, .varint w => ({ m with seq := w.toUInt32 }, true)
    | 2, .varint w => ({ m with modid := lowInt w }, true)
    | 3, .varint w => ({ m with cmdid := lowInt w }, true)
    | 4, .varint w => ({ m with retcode := lowInt w }, true)
    | 5, .bytes bs =>
      let (h, ok) := mergeHost m.host bs
      ({ m with host := some h }, ok)
    | _, _ => (m, true)

instance : Message ReportRequest where
  init := { }
  fields m := int32Field field1 m.modid ++ int32Field field2 m.cmdid ++
    (m.host.map (messageField field3)).toList ++ int32Field field4 m.retcode
  merge m f :=
    match f.number.val, f.value with
    | 1, .varint w => ({ m with modid := lowInt w }, true)
    | 2, .varint w => ({ m with cmdid := lowInt w }, true)
    | 3, .bytes bs =>
      let (h, ok) := mergeHost m.host bs
      ({ m with host := some h }, ok)
    | 4, .varint w => ({ m with retcode := lowInt w }, true)
    | _, _ => (m, true)

section Scalars

variable {M : Type} [Message M]

/-- Reading back a scalar sets the field it was written for, since the field was zero. -/
theorem mergeFields_int32Field {n : FieldNumber} (m : M) (x : Int32) (set : Int32 → M)
    (hmerge : ∀ w, merge m ⟨n, .varint w⟩ = (set (lowInt w), true)) (hzero : set 0 = m) :
    mergeFields m (int32Field n x) = (set x, true) := by
  unfold int32Field
  split_ifs with hx
  · subst x
    rw [hzero]
    rfl
  · simp [mergeFields, hmerge, lowInt_signExtend]

theorem mergeFields_uint32Field {n : FieldNumber} (m : M) (x : UInt32) (set : UInt32 → M)
    (hmerge : ∀ w, merge m ⟨n, .varint w⟩ = (set w.toUInt32, true)) (hzero : set 0 = m) :
    mergeFields m (uint32Field n x) = (set x, true) := by
  unfold uint32Field
  split_ifs with hx
  · subst x
    rw [hzero]
    rfl
  · simp [mergeFields, hmerge]

end Scalars

theorem fits_int32Field {n : FieldNumber} {x : Int32} : ∀ f ∈ int32Field n x, f.Fits := by
  unfold int32Field
  split_ifs <;> simp [Field.Fits]

theorem fits_uint32Field {n : FieldNumber} {x : UInt32} : ∀ f ∈ uint32Field n x, f.Fits := by
  unfold uint32Field
  split_ifs <;> simp [Field.Fits]

theorem length_int32Field_le (n : FieldNumber) (x : Int32) :
    (encodeFields (int32Field n x)).length ≤ 15 := by
  unfold int32Field
  split_ifs
  · simp [encodeFields]
  · have htag := length_encodeVarint_le 5 (n.val * 8)
    have hval := length_encodeVarint_le 10 (signExtend x).toNat
    simp only [encodeFields, List.flatMap_singleton, Field.encode, List.length_append]
    omega

theorem length_uint32Field_le (n : FieldNumber) (x : UInt32) :
    (encodeFields (uint32Field n x)).length ≤ 15 := by
  unfold uint32Field
  split_ifs
  · simp [encodeFields]
  · have htag := length_encodeVarint_le 5 (n.val * 8)
    have hval := length_encodeVarint_le 10 x.toUInt64.toNat
    simp only [encodeFields, List.flatMap_singleton, Field.encode, List.length_append]
    omega

theorem length_serialize_host_le (h : HostInfo) : (serialize h).length ≤ 30 := by
  have h1 := length_int32Field_le field1 h.ip
  have h2 := length_int32Field_le field2 h.port
  change (encodeFields (int32Field field1 h.ip ++ int32Field field2 h.port)).length ≤ 30
  rw [encodeFields, List.flatMap_append, List.length_append]
  exact Nat.add_le_add h1 h2

theorem fits_messageField_host {n : FieldNumber} (h : HostInfo) : (messageField n h).Fits := by
  have := length_serialize_host_le h
  change (serialize h).length < 2 ^ 31
  omega

theorem length_messageField_host_le (n : FieldNumber) (h : HostInfo) :
    (messageField n h).encode.length ≤ 40 := by
  have htag := length_encodeVarint_le 5 (n.val * 8 + 2)
  have hlen := length_encodeVarint_le 5 (serialize h).length
  have hbody := length_serialize_host_le h
  simp only [messageField, Field.encode, List.length_append]
  omega

theorem mergeFields_host (h : HostInfo) : mergeFields (init : HostInfo) (fields h) = (h, true) := by
  have hip := mergeFields_int32Field (init : HostInfo) h.ip (fun x => { ip := x })
    (n := field1) (fun _ => rfl) rfl
  have hport := mergeFields_int32Field ({ ip := h.ip } : HostInfo) h.port
    (fun x => { ip := h.ip, port := x }) (n := field2) (fun _ => rfl) rfl
  exact (mergeFields_append _ _ _ hip).trans hport

theorem fits_host (h : HostInfo) : ∀ f ∈ fields h, f.Fits := by
  intro f hf
  rcases List.mem_append.mp hf with hf | hf <;> exact fits_int32Field f hf

theorem mergeHost_serialize (h : HostInfo) : mergeHost none (serialize h) = (h, true) := by
  rw [mergeHost, serialize, mergeFrom_encodeFields _ (fits_host h)]
  exact mergeFields_host h

/-- The two scalars that a route request and a route response start with. -/
theorem fits_routeScalars {modid cmdid : Int32} :
    ∀ f ∈ int32Field field1 modid ++ int32Field field2 cmdid, f.Fits := by
  intro f hf
  rcases List.mem_append.mp hf with hf | hf <;> exact fits_int32Field f hf

theorem parse_getRouteRequest (req : GetRouteRequest) : parse (serialize req) = (req, true) := by
  have h1 := mergeFields_int32Field (init : GetRouteRequest) req.modid (fun x => { modid := x })
    (n := field1) (fun _ => rfl) rfl
  have h2 := mergeFields_int32Field ({ modid := req.modid } : GetRouteRequest) req.cmdid
    (fun x => { modid := req.modid, cmdid := x }) (n := field2) (fun _ => rfl) rfl
  have hfits : ∀ f ∈ fields req, f.Fits := fits_routeScalars
  rw [parse, serialize, mergeFrom_encodeFields _ hfits]
  exact (mergeFields_append _ _ _ h1).trans h2

theorem length_getRouteRequest_le (req : GetRouteRequest) : (serialize req).length ≤ 100 := by
  have h1 := length_int32Field_le field1 req.modid
  have h2 := length_int32Field_le field2 req.cmdid
  simp only [encodeFields] at h1 h2
  simp only [serialize, fields, encodeFields, List.flatMap_append, List.length_append]
  omega

theorem fits_getRouteResponse (rsp : GetRouteResponse) : ∀ f ∈ fields rsp, f.Fits := by
  intro f hf
  rcases List.mem_append.mp hf with hf | hf
  · exact fits_routeScalars f hf
  · obtain ⟨h, -, rfl⟩ := List.mem_map.mp hf
    exact fits_messageField_host h

/-- Each host field adds its host behind those already read. -/
theorem mergeFields_hosts (modid cmdid : Int32) (done hosts : List HostInfo) :
    mergeFields (⟨modid, cmdid, done⟩ : GetRouteResponse) (hosts.map (messageField field3)) =
      (⟨modid, cmdid, done ++ hosts⟩, true) := by
  induction hosts generalizing done with
  | nil => simp [mergeFields]
  | cons h hosts ih =>
    have hmerge : merge (⟨modid, cmdid, done⟩ : GetRouteResponse) (messageField field3 h) =
        (⟨modid, cmdid, done ++ [h]⟩, true) := by
      simp [merge, messageField, field3, mergeHost_serialize]
    simp [mergeFields, hmerge, ih]

theorem parse_getRouteResponse (rsp : GetRouteResponse) : parse (serialize rsp) = (rsp, true) := by
  have h1 := mergeFields_int32Field (init : GetRouteResponse) rsp.modid (fun x => { modid := x })
    (n := field1) (fun _ => rfl) rfl
  have h2 := mergeFields_int32Field ({ modid := rsp.modid } : GetRouteResponse) rsp.cmdid
    (fun x => { modid := rsp.modid, cmdid := x }) (n := field2) (fun _ => rfl) rfl
  have h3 := mergeFields_hosts rsp.modid rsp.cmdid [] rsp.host
  rw [parse, serialize, mergeFrom_encodeFields _ (fits_getRouteResponse rsp)]
  exact (mergeFields_append _ _ _ ((mergeFields_append _ _ _ h1).trans h2)).trans h3

/-- A request is built as a response with nothing but its first three fields. -/
theorem parse_getHostRequest (seq : UInt32) (modid cmdid : Int32) :
    parse (serialize ({ seq := seq, modid := modid, cmdid := cmdid } : GetHostResponse)) =
      (({ seq := seq, modid := modid, cmdid := cmdid } : GetHostRequest), true) := by
  have hf : fields ({ seq := seq, modid := modid, cmdid := cmdid } : GetHostResponse) =
      uint32Field field1 seq ++ int32Field field2 modid ++ int32Field field3 cmdid := by
    simp [fields, int32Field]
  have hfits : ∀ f ∈ uint32Field field1 seq ++ int32Field field2 modid ++ int32Field field3 cmdid,
      f.Fits := by
    intro f hf
    simp only [List.mem_append] at hf
    rcases hf with (hf | hf) | hf
    · exact fits_uint32Field f hf
    · exact fits_int32Field f hf
    · exact fits_int32Field f hf
  have h1 := mergeFields_uint32Field (init : GetHostRequest) seq (fun x => { seq := x })
    (n := field1) (fun _ => rfl) rfl
  have h2 := mergeFields_int32Field ({ seq := seq } : GetHostRequest) modid
    (fun x => { seq := seq, modid := x }) (n := field2) (fun _ => rfl) rfl
  have h3 := mergeFields_int32Field ({ seq := seq, modid := modid } : GetHostRequest) cmdid
    (fun x => { seq := seq, modid := modid, cmdid := x }) (n := field3) (fun _ => rfl) rfl
  rw [parse, serialize, hf, mergeFrom_encodeFields _ hfits, List.append_assoc,
    mergeFields_append _ _ _ h1, mergeFields_append _ _ _ h2, h3]

/-- A report read as a host request: the module id lands in the sequence number, the command
id in the module id, and the host and the return code are ignored. -/
theorem parse_reportRequest_as_getHostRequest (req : ReportRequest) :
    parse (serialize req) =
      (({ seq := req.modid.toUInt32, modid := req.cmdid } : GetHostRequest), true) := by
  have hfits : ∀ f ∈ fields req, f.Fits := by
    intro f hf
    simp only [fields, List.mem_append] at hf
    rcases hf with ((hf | hf) | hf) | hf
    · exact fits_int32Field f hf
    · exact fits_int32Field f hf
    · obtain ⟨h, -, rfl⟩ := Option.map_eq_some_iff.mp (Option.mem_toList.mp hf)
      exact fits_messageField_host h
    · exact fits_int32Field f hf
  have h1 := mergeFields_int32Field (init : GetHostRequest) req.modid
    (fun x => { seq := x.toUInt32 }) (n := field1) (fun _ => rfl) rfl
  have h2 := mergeFields_int32Field ({ seq := req.modid.toUInt32 } : GetHostRequest) req.cmdid
    (fun x => { seq := req.modid.toUInt32, modid := x }) (n := field2) (fun _ => rfl) rfl
  have h3 : mergeFields ({ seq := req.modid.toUInt32, modid := req.cmdid } : GetHostRequest)
      (req.host.map (messageField field3)).toList =
      ({ seq := req.modid.toUInt32, modid := req.cmdid }, true) := by
    cases req.host <;> rfl
  have h4 := mergeFields_int32Field
    ({ seq := req.modid.toUInt32, modid := req.cmdid } : GetHostRequest) req.retcode
    (fun _ => { seq := req.modid.toUInt32, modid := req.cmdid }) (n := field4) (fun _ => rfl) rfl
  rw [parse, serialize, mergeFrom_encodeFields _ hfits]
  simp only [fields, List.append_assoc]
  rw [mergeFields_append _ _ _ h1, mergeFields_append _ _ _ h2, mergeFields_append _ _ _ h3, h4]

theorem length_reportRequest_le (req : ReportRequest) : (serialize req).length ≤ 100 := by
  have h1 := length_int32Field_le field1 req.modid
  have h2 := length_int32Field_le field2 req.cmdid
  have h3 : (encodeFields (req.host.map (messageField field3)).toList).length ≤ 40 := by
    cases req.host with
    | none => simp [encodeFields]
    | some h => simpa [encodeFields] using length_messageField_host_le field3 h
  have h4 := length_int32Field_le field4 req.retcode
  simp only [encodeFields] at h1 h2 h3 h4
  simp only [serialize, fields, encodeFields, List.flatMap_append, List.length_append]
  omega

theorem fits_getHostResponse (rsp : GetHostResponse) : ∀ f ∈ fields rsp, f.Fits := by
  intro f hf
  simp only [fields, List.mem_append] at hf
  rcases hf with (((hf | hf) | hf) | hf) | hf
  · exact fits_uint32Field f hf
  · exact fits_int32Field f hf
  · exact fits_int32Field f hf
  · exact fits_int32Field f hf
  · obtain ⟨h, -, rfl⟩ := Option.map_eq_some_iff.mp (Option.mem_toList.mp hf)
    exact fits_messageField_host h

theorem mergeFields_getHostResponse (rsp : GetHostResponse) :
    mergeFields (init : GetHostResponse) (fields rsp) = (rsp, true) := by
  obtain ⟨seq, modid, cmdid, retcode, host⟩ := rsp
  have h1 := mergeFields_uint32Field (init : GetHostResponse) seq (fun x => { seq := x })
    (n := field1) (fun _ => rfl) rfl
  have h2 := mergeFields_int32Field ({ seq := seq } : GetHostResponse) modid
    (fun x => { seq := seq, modid := x }) (n := field2) (fun _ => rfl) rfl
  have h3 := mergeFields_int32Field ({ seq := seq, modid := modid } : GetHostResponse) cmdid
    (fun x => { seq := seq, modid := modid, cmdid := x }) (n := field3) (fun _ => rfl) rfl
  have h4 := mergeFields_int32Field
    ({ seq := seq, modid := modid, cmdid := cmdid } : GetHostResponse) retcode
    (fun x => { seq := seq, modid := modid, cmdid := cmdid, retcode := x })
    (n := field4) (fun _ => rfl) rfl
  have hscalars := (mergeFields_append _ _ _ h1).trans
    ((mergeFields_append _ _ _ h2).trans ((mergeFields_append _ _ _ h3).trans h4))
  have hf : fields (⟨seq, modid, cmdid, retcode, host⟩ : GetHostResponse) =
      (uint32Field field1 seq ++ (int32Field field2 modid ++ (int32Field field3 cmdid ++
        int32Field field4 retcode))) ++ (host.map (messageField field5)).toList := by
    simp [fields]
  rw [hf, mergeFields_append _ _ _ hscalars]
  cases host with
  | none => rfl
  | some h =>
    simp [mergeFields, merge, messageField, field5, mergeHost_serialize]

theorem parse_getHostResponse (rsp : GetHostResponse) : parse (serialize rsp) = (rsp, true) := by
  rw [parse, serialize, mergeFrom_encodeFields _ (fits_getHostResponse rsp)]
  exact mergeFields_getHostResponse rsp

theorem length_getHostResponse_le (rsp : GetHostResponse) : (serialize rsp).length ≤ 100 := by
  have h1 := length_uint32Field_le field1 rsp.seq
  have h2 := length_int32Field_le field2 rsp.modid
  have h3 := length_int32Field_le field3 rsp.cmdid
  have h4 := length_int32Field_le field4 rsp.retcode
  have h5 : (encodeFields (rsp.host.map (messageField field5)).toList).length ≤ 40 := by
    cases rsp.host with
    | none => simp [encodeFields]
    | some h => simpa [encodeFields] using length_messageField_host_le field5 h
  simp only [encodeFields] at h1 h2 h3 h4 h5
  simp only [serialize, fields, encodeFields, List.flatMap_append, List.length_append]
  omega

end Lrlb.Proto
