import JavaDebug.FieldWrites

/-!
Tagged values on the wire, read from a slice that is left where it was when a
read fails. The writer looks at the kind of a value and the reader at its tag;
a value of the kind its tag names is read back, whatever follows, so a sequence
of values is. Cut short anywhere it is an error, and neither an unknown tag nor
a short slice loses a byte of the value.
-/
namespace JavaDebug.TaggedValues

open Octets Cursors JavaValues FieldWrites
open WireReader hiding read_u8 read_value_by_tag read_value
open EventLoop (JdwpError)

section Slices

/-- A reader of `&mut &[u8]`: what has not been read is kept when it fails. -/
abbrev Slice (α : Type) := ExceptT JdwpError (StateM Bytes) α

/-- One check ahead of the read, so a failure leaves the slice as it was. -/
def on_slice {α : Type} (p : Buf α) : Slice α := ExceptT.mk fun buf =>
  match p buf with
  | .ok (a, rest) => (.ok a, rest)
  | .error e => (.error e, buf)

def read_u8 : Slice UInt8 := on_slice WireReader.read_u8

def read_value_by_tag (tag : UInt8) : Slice ValueData :=
  on_slice (WireReader.read_value_by_tag tag)

def read_value : Slice Value := do
  let tag ← read_u8
  let data ← read_value_by_tag tag
  pure ⟨tag, data⟩

/-- Values one after another. -/
def read_values : ℕ → Slice (List Value)
  | 0 => pure []
  | n + 1 => do
    let v ← read_value
    let vs ← read_values n
    pure (v :: vs)

end Slices

section Writing

/-- A value of the kind its tag names. -/
abbrev TaggedValue := {v : Value // Tagged v}

def known_tags : List UInt8 := [86, 66, 90, 67, 83, 70, 73, 68, 74, 76, 115, 116, 103, 108, 99, 91]

theorem value_width_known {tag : UInt8} (h : tag ∈ known_tags) : ∃ n, value_width tag = .ok n := by
  simp only [known_tags, List.mem_cons, List.not_mem_nil, or_false] at h
  rcases h with rfl | rfl | rfl | rfl | rfl | rfl | rfl | rfl | rfl | rfl | rfl | rfl | rfl | rfl |
    rfl | rfl
  all_goals exact ⟨_, rfl⟩

theorem value_width_unknown {tag : UInt8} (h : tag ∉ known_tags) :
    value_width tag = .error (.protocol ("Unknown value tag: " ++ toString tag.toNat)) := by
  unfold value_width
  split
  all_goals first | rfl | exact absurd (by decide) h

/-- What was written of a value is the value its tag gives those bytes. -/
theorem data_of_written {v : Value} (h : Tagged v) :
    data_of v.tag (value (write_untagged_value v)) = v.data := by
  obtain ⟨tag, data⟩ := v
  have hput : ∀ {k n : ℕ}, n < 256 ^ k → value (put k n) = n := fun hn => by
    rw [value_put, Nat.mod_eq_of_lt hn]
  unfold write_untagged_value
  cases data with
  | object id =>
    simp only [Tagged, List.mem_cons, List.not_mem_nil, or_false] at h
    simp only [hput (k := 8) id.toNat_lt]
    rcases h with rfl | rfl | rfl | rfl | rfl | rfl | rfl
    all_goals exact congrArg ValueData.object UInt64.ofNat_toNat
  | byte x =>
    obtain rfl := h
    simp only [hput (k := 1) x.toUInt8.toNat_lt]
    exact congrArg ValueData.byte (i8_of_put x)
  | char x =>
    obtain rfl := h
    simp only [hput (k := 2) x.toNat_lt]
    exact congrArg ValueData.char UInt16.ofNat_toNat
  | float x =>
    obtain rfl := h
    simp only [hput (k := 4) x.toNat_lt]
    exact congrArg ValueData.float UInt32.ofNat_toNat
  | double x =>
    obtain rfl := h
    simp only [hput (k := 8) x.toNat_lt]
    exact congrArg ValueData.double UInt64.ofNat_toNat
  | int x =>
    obtain rfl := h
    simp only [hput (k := 4) x.toUInt32.toNat_lt]
    exact congrArg ValueData.int (i32_of_put x)
  | long x =>
    obtain rfl := h
    simp only [hput (k := 8) x.toUInt64.toNat_lt]
    exact congrArg ValueData.long (i64_of_put x)
  | short x =>
    obtain rfl := h
    simp only [hput (k := 2) x.toUInt16.toNat_lt]
    exact congrArg ValueData.short (i16_of_put x)
  | boolean x =>
    obtain rfl := h
    cases x <;> rfl
  | void =>
    obtain rfl := h
    rfl

end Writing

section Reading

theorem run_bind {α β : Type} (p : Slice α) (f : α → Slice β) (buf : Bytes) :
    (p >>= f).run.run buf =
      match p.run.run buf with
      | (.ok a, rest) => (f a).run.run rest
      | (.error e, rest) => (.error e, rest) := by
  change (match p.run.run buf with
    | (r, rest) => (ExceptT.bindCont f r).run rest) = _
  rcases p.run.run buf with ⟨_ | a, rest⟩
  · rfl
  · rfl

theorem run_on_slice {α : Type} (p : Buf α) (buf : Bytes) : (on_slice p).run.run buf =
    match p buf with
    | .ok (a, rest) => (.ok a, rest)
    | .error e => (.error e, buf) := by
  unfold on_slice
  rfl

theorem run_read_u8 (b : UInt8) (rest : Bytes) : read_u8.run.run (b :: rest) = (.ok b, rest) := by
  have hone : WireReader.read_u8 (b :: rest) = .ok (b, rest) := reads_u8 b rest
  rw [read_u8, run_on_slice, hone]

/-- All that reading under a tag can do. -/
theorem run_value_by_tag (tag : UInt8) (buf : Bytes) :
    (read_value_by_tag tag).run.run buf =
      match value_width tag with
      | .error e => (.error e, buf)
      | .ok width =>
        if buf.length < width then (.error (not_enough "value" width buf.length), buf)
        else (.ok (data_of tag (value (buf.take width))), buf.drop width) := by
  rw [read_value_by_tag, run_on_slice]
  unfold WireReader.read_value_by_tag
  cases value_width tag with
  | error e => rfl
  | ok width =>
    have hread : (StateT.lift (.ok width) >>= fun k => fixed k "value" (data_of tag)) buf = _ :=
      run_fixed width "value" (data_of tag) buf
    rw [hread]
    by_cases hshort : buf.length < width
    · simp only [if_pos hshort]
    · simp only [if_neg hshort]

theorem read_unknown {tag : UInt8} (h : tag ∉ known_tags) (buf : Bytes) :
    (read_value_by_tag tag).run.run buf =
      (.error (.protocol ("Unknown value tag: " ++ toString tag.toNat)), buf) := by
  rw [run_value_by_tag, value_width_unknown h]

theorem read_short {tag : UInt8} {width : ℕ} (hwidth : value_width tag = .ok width) {buf : Bytes}
    (h : buf.length < width) : (read_value_by_tag tag).run.run buf =
      (.error (not_enough "value" width buf.length), buf) := by
  rw [run_value_by_tag, hwidth]
  exact if_pos h

theorem read_written (v : TaggedValue) (rest : Bytes) :
    read_value.run.run (write_tagged_value v.val ++ rest) = (.ok v.val, rest) := by
  have hwidth := tagged_width v.property
  have hdata := data_of_written v.property
  have hlong : ¬ (write_untagged_value v.val ++ rest).length <
      (write_untagged_value v.val).length := by
    rw [List.length_append]
    omega
  have hvalue : (read_value_by_tag v.val.tag).run.run (write_untagged_value v.val ++ rest) =
      (.ok v.val.data, rest) := by
    rw [run_value_by_tag, hwidth]
    simp only [if_neg hlong, List.take_left, List.drop_left, hdata]
  unfold read_value write_tagged_value put_u8
  rw [List.singleton_append, List.cons_append, run_bind, run_read_u8]
  simp only
  rw [run_bind, hvalue]
  rfl

theorem read_all_written (vs : List TaggedValue) (rest : Bytes) :
    (read_values vs.length).run.run (vs.flatMap (fun v => write_tagged_value v.val) ++ rest) =
      (.ok (vs.map Subtype.val), rest) := by
  induction vs with
  | nil => rfl
  | cons v vs ih =>
    rw [List.flatMap_cons, List.append_assoc, List.length_cons, read_values, run_bind,
      read_written]
    simp only
    rw [run_bind, ih]
    rfl

/-- A value that is cut short fails, and its bytes after the tag are kept. -/
theorem read_cut (v : TaggedValue) {bs : Bytes} (hbs : bs <+: write_tagged_value v.val)
    (hcut : bs ≠ write_tagged_value v.val) : ∃ e, read_value.run.run bs = (.error e, bs.tail) := by
  cases bs with
  | nil => exact ⟨_, rfl⟩
  | cons b rest =>
    obtain ⟨more, hmore⟩ := hbs
    unfold write_tagged_value put_u8 at hmore hcut
    rw [List.singleton_append] at hmore hcut
    rw [List.cons_append, List.cons.injEq] at hmore
    obtain ⟨rfl, hrest⟩ := hmore
    have hshort : rest.length < (write_untagged_value v.val).length := by
      have hne : more ≠ [] := by
        rintro rfl
        rw [List.append_nil] at hrest
        exact hcut (by rw [hrest])
      have hpos := List.length_pos_iff.mpr hne
      rw [← hrest, List.length_append]
      omega
    unfold read_value
    rw [run_bind, run_read_u8]
    simp only
    rw [run_bind, read_short (tagged_width v.property) hshort]
    exact ⟨_, rfl⟩

end Reading

/-- Values of the kinds their tags name are read back in order with nothing left over; cut short,
or under a tag that is not known, a value is an error and none of its bytes is consumed. -/
theorem tagged_values_survive (vs : List TaggedValue) :
    (read_values vs.length).run.run (vs.flatMap fun v => write_tagged_value v.val) =
        (.ok (vs.map Subtype.val), []) ∧
      (∀ v : TaggedValue, ∀ bs, bs <+: write_tagged_value v.val → bs ≠ write_tagged_value v.val →
        ∃ e, read_value.run.run bs = (.error e, bs.tail)) ∧
      (∀ tag, (tag ∈ known_tags ∧ ∃ width, value_width tag = .ok width ∧ ∀ buf : Bytes,
          buf.length < width → ∃ e, (read_value_by_tag tag).run.run buf = (.error e, buf)) ∨
         (tag ∉ known_tags ∧ ∀ buf, ∃ e,
          (read_value_by_tag tag).run.run buf = (.error e, buf))) := by
  refine ⟨?_, fun v bs hprefix hcut => read_cut v hprefix hcut, fun tag => ?_⟩
  · have h := read_all_written vs []
    rwa [List.append_nil] at h
  · by_cases hknown : tag ∈ known_tags
    · obtain ⟨width, hwidth⟩ := value_width_known hknown
      exact Or.inl ⟨hknown, width, hwidth, fun buf hshort => ⟨_, read_short hwidth hshort⟩⟩
    · exact Or.inr ⟨hknown, fun buf => ⟨_, read_unknown hknown buf⟩⟩

end JavaDebug.TaggedValues
