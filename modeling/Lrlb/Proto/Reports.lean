import Lrlb.Proto.Codec

/-! How the status reports of an agent are written and read. -/
namespace Lrlb.Proto
open Lib Lib.Message

def boolField (n : FieldNumber) (x : Bool) : List Field := if x then [⟨n, .varint 1⟩] else []

instance : Message HostCallResult where
  init := { }
  fields m := int32Field field1 m.ip ++ int32Field field2 m.port ++ uint32Field field3 m.succ ++
    uint32Field field4 m.err ++ boolField field5 m.overload
  merge m f :=
    match f.number.val, f.value with
    | 1, .varint w => ({ m with ip := lowInt w }, true)
    | 2, .varint w => ({ m with port := lowInt w }, true)
    | 3, .varint w => ({ m with succ := w.toUInt32 }, true)
    | 4, .varint w => ({ m with err := w.toUInt32 }, true)
    | 5, .varint w => ({ m with overload := w ≠ 0 }, true)
    | _, _ => (m, true)

instance : Message ReportStatusReq where
  init := { }
  fields m := int32Field field1 m.modid ++ int32Field field2 m.cmdid ++ int32Field field3 m.caller ++
    m.results.map (messageField field4) ++ uint32Field field5 m.ts
  merge m f :=
    match f.number.val, f.value with
    | 1, .varint w => ({ m with modid := lowInt w }, true)
    | 2, .varint w => ({ m with cmdid := lowInt w }, true)
    | 3, .varint w => ({ m with caller := lowInt w }, true)
    | 4, .bytes bs =>
      let (result, ok) := mergeFrom ({ } : HostCallResult) bs
      ({ m with results := m.results ++ [result] }, ok)
    | 5, .varint w => ({ m with ts := w.toUInt32 }, true)
    | _, _ => (m, true)

theorem mergeFields_boolField {M : Type} [Message M] {n : FieldNumber} (m : M) (x : Bool)
    (set : Bool → M) (hmerge : merge m ⟨n, .varint 1⟩ = (set true, true)) (hfalse : set false = m) :
    mergeFields m (boolField n x) = (set x, true) := by
  cases x with
  | false =>
    rw [hfalse]
    rfl
  | true => simp [boolField, mergeFields, hmerge]

theorem fits_boolField {n : FieldNumber} {x : Bool} : ∀ f ∈ boolField n x, f.Fits := by
  cases x <;> simp [boolField, Field.Fits]

theorem length_boolField_le (n : FieldNumber) (x : Bool) :
    (encodeFields (boolField n x)).length ≤ 15 := by
  cases x with
  | false => simp [boolField, encodeFields]
  | true =>
    have htag := length_encodeVarint_le 5 (n.val * 8)
    have hval := length_encodeVarint_le 10 (1 : UInt64).toNat
    simp only [boolField, if_true, encodeFields, List.flatMap_singleton, Field.encode,
      List.length_append]
    omega

theorem fits_hostCallResult (r : HostCallResult) : ∀ f ∈ fields r, f.Fits := by
  intro f hf
  simp only [fields, List.mem_append] at hf
  rcases hf with (((hf | hf) | hf) | hf) | hf
  · exact fits_int32Field f hf
  · exact fits_int32Field f hf
  · exact fits_uint32Field f hf
  · exact fits_uint32Field f hf
  · exact fits_boolField f hf

theorem mergeFields_hostCallResult (r : HostCallResult) :
    mergeFields (init : HostCallResult) (fields r) = (r, true) := by
  obtain ⟨ip, port, succ, err, overload⟩ := r
  have h1 := mergeFields_int32Field (init : HostCallResult) ip (fun x => { ip := x })
    (n := field1) (fun _ => rfl) rfl
  have h2 := mergeFields_int32Field ({ ip := ip } : HostCallResult) port
    (fun x => { ip := ip, port := x }) (n := field2) (fun _ => rfl) rfl
  have h3 := mergeFields_uint32Field ({ ip := ip, port := port } : HostCallResult) succ
    (fun x => { ip := ip, port := port, succ := x }) (n := field3) (fun _ => rfl) rfl
  have h4 := mergeFields_uint32Field ({ ip := ip, port := port, succ := succ } : HostCallResult) err
    (fun x => { ip := ip, port := port, succ := succ, err := x }) (n := field4) (fun _ => rfl) rfl
  have h5 := mergeFields_boolField
    ({ ip := ip, port := port, succ := succ, err := err } : HostCallResult) overload
    (fun x => { ip := ip, port := port, succ := succ, err := err, overload := x })
    (n := field5) rfl rfl
  simp only [fields, List.append_assoc]
  rw [mergeFields_append _ _ _ h1, mergeFields_append _ _ _ h2, mergeFields_append _ _ _ h3,
    mergeFields_append _ _ _ h4, h5]

theorem length_serialize_hostCallResult_le (r : HostCallResult) : (serialize r).length ≤ 75 := by
  have h1 := length_int32Field_le field1 r.ip
  have h2 := length_int32Field_le field2 r.port
  have h3 := length_uint32Field_le field3 r.succ
  have h4 := length_uint32Field_le field4 r.err
  have h5 := length_boolField_le field5 r.overload
  simp only [encodeFields] at h1 h2 h3 h4 h5
  simp only [serialize, fields, encodeFields, List.flatMap_append, List.length_append]
  omega

theorem fits_reportStatusReq (req : ReportStatusReq) : ∀ f ∈ fields req, f.Fits := by
  intro f hf
  simp only [fields, List.mem_append] at hf
  rcases hf with (((hf | hf) | hf) | hf) | hf
  · exact fits_int32Field f hf
  · exact fits_int32Field f hf
  · exact fits_int32Field f hf
  · obtain ⟨r, -, rfl⟩ := List.mem_map.mp hf
    have hlen := length_serialize_hostCallResult_le r
    change (serialize r).length < 2 ^ 31
    omega
  · exact fits_uint32Field f hf

theorem length_reportStatusReq_le (req : ReportStatusReq) :
    (serialize req).length ≤ 60 + 85 * req.results.length := by
  have h1 := length_int32Field_le field1 req.modid
  have h2 := length_int32Field_le field2 req.cmdid
  have h3 := length_int32Field_le field3 req.caller
  have h5 := length_uint32Field_le field5 req.ts
  have h4 : (encodeFields (req.results.map (messageField field4))).length ≤
      85 * req.results.length := by
    induction req.results with
    | nil => simp [encodeFields]
    | cons r results ih =>
      have htag := length_encodeVarint_le 5 (field4.val * 8 + 2)
      have hlen := length_encodeVarint_le 5 (serialize r).length
      have hbody := length_serialize_hostCallResult_le r
      simp only [encodeFields, List.map_cons, List.flatMap_cons, List.length_append, messageField,
        Field.encode, List.length_cons] at ih ⊢
      omega
  simp only [encodeFields] at h1 h2 h3 h4 h5
  simp only [serialize, fields, encodeFields, List.flatMap_append, List.length_append]
  omega

/-- A report with a result is not written as an empty message. -/
theorem serialize_reportStatusReq_ne_nil {req : ReportStatusReq} (h : req.results ≠ []) :
    serialize req ≠ [] := by
  obtain ⟨r, results, hresults⟩ := List.exists_cons_of_ne_nil h
  have htag : encodeVarint 5 (field4.val * 8 + 2) ≠ [] := encodeVarint_ne_nil (by omega) _
  simp [serialize, fields, encodeFields, hresults, messageField, Field.encode, htag]

/-- Each result is added behind those already read. -/
theorem mergeFields_results (req : ReportStatusReq) (results : List HostCallResult) :
    mergeFields req (results.map (messageField field4)) =
      ({ req with results := req.results ++ results }, true) := by
  induction results generalizing req with
  | nil => simp [mergeFields]
  | cons r results ih =>
    have hread : mergeFrom ({ } : HostCallResult) (serialize r) = (r, true) := by
      rw [serialize, mergeFrom_encodeFields _ (fits_hostCallResult r)]
      exact mergeFields_hostCallResult r
    have hmerge : merge req (messageField field4 r) =
        ({ req with results := req.results ++ [r] }, true) := by
      simp [merge, messageField, field4, hread]
    simp [mergeFields, hmerge, ih]

/-- What an agent has written is what the reporter reads. -/
theorem parse_reportStatusReq (req : ReportStatusReq) : parse (serialize req) = (req, true) := by
  obtain ⟨modid, cmdid, caller, results, ts⟩ := req
  have h1 := mergeFields_int32Field (init : ReportStatusReq) modid (fun x => { modid := x })
    (n := field1) (fun _ => rfl) rfl
  have h2 := mergeFields_int32Field ({ modid := modid } : ReportStatusReq) cmdid
    (fun x => { modid := modid, cmdid := x }) (n := field2) (fun _ => rfl) rfl
  have h3 := mergeFields_int32Field ({ modid := modid, cmdid := cmdid } : ReportStatusReq) caller
    (fun x => { modid := modid, cmdid := cmdid, caller := x }) (n := field3) (fun _ => rfl) rfl
  have h4 := mergeFields_results ({ modid := modid, cmdid := cmdid, caller := caller }) results
  have h5 := mergeFields_uint32Field (⟨modid, cmdid, caller, results, 0⟩ : ReportStatusReq) ts
    (fun x => ⟨modid, cmdid, caller, results, x⟩) (n := field5) (fun _ => rfl) rfl
  rw [parse, serialize, mergeFrom_encodeFields _ (fits_reportStatusReq _)]
  simp only [fields, List.append_assoc]
  rw [mergeFields_append _ _ _ h1, mergeFields_append _ _ _ h2, mergeFields_append _ _ _ h3,
    mergeFields_append _ _ _ h4]
  exact h5

end Lrlb.Proto
