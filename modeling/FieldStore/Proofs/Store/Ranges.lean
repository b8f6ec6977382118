/-
Ranges of a field, whatever is asked for.

The offset and the length of an access come from outside and may be any two sizes.  What becomes
of the access is told by the end of the range, taken as a natural number.  A range that ends
within the field goes on to the device, shifted by the place of the field and otherwise as it
came; the shift never leaves the addresses, because a field is only declared where all its bytes
have one.  A range that ends behind the field is refused before anything else is looked at.

The end itself is added up without a check, so a range whose end is no address is not refused but
is a fault.  The check of the device does not have this gap.  The default length leaves none
either: a range to the end of the field ends at the greater of the offset and the size.
-/
import FieldStore.Proofs.Store.Failures

namespace FieldStore.Field

variable {field : Field} {offset : Option Nat}

/-! ### Where ranges end -/

theorem stop_none (field : Field) (offset : Option Nat) :
    field.stop offset none = max (offset.getD 0) field.size := by
  unfold stop
  rw [Option.getD_none]
  omega

/-- The bytes of a declared field have addresses in its tree. -/
theorem Declared.end_lt (h : field.Declared) : field.offset + field.size < Size.bound := by
  obtain ⟨program, ty, dims, program', hdeclare⟩ := h
  obtain ⟨closed, tree, -, -, -, -, hoffset, -, -, -, hend, -⟩ := declare_eq_ok hdeclare
  rw [hoffset]
  exact hend

theorem Declared.stop_none_lt (h : field.Declared) (hoffset : offset.getD 0 < Size.bound) :
    field.stop offset none < Size.bound := by
  rw [stop_none]
  exact max_lt hoffset h.sound.size_lt

/-! ### Accesses -/

/-- The rest of an access whose range is in order: the storage of the tree, and the transfer of
the range where it lies in the tree. -/
def pass {α : Type} (field : Field) (start count : Nat)
    (transfer : TreeId → Nat → Nat → HostM DeviceError α) : HostM FieldError α := do
  let tree ← Host.requireStorage field.tree
  Host.onDevice (transfer tree (field.offset + start) count)

/-- How an access to a range of a field deals with the range. -/
structure Relays {α : Type} (field : Field) (offset length : Option Nat)
    (action : HostM FieldError α) (transfer : TreeId → Nat → Nat → HostM DeviceError α) :
    Prop where
  /-- A range that ends within the field is passed on. -/
  within : field.stop offset length ≤ field.size →
    action = field.pass (offset.getD 0) (length.getD (field.size - offset.getD 0)) transfer
  /-- A range that ends behind the field is refused, and nothing is done. -/
  beyond : field.size < field.stop offset length → field.stop offset length < Size.bound →
    ∀ host, Host.runs action host
      = (.error (.error (.sizeMismatch field.size (field.stop offset length))), host)
  /-- A range whose end is no address is a fault, and nothing is done. -/
  overflow : Size.bound ≤ field.stop offset length →
    ∀ host, Host.runs action host = (.error (.fault .overflow), host)

theorem relays_access {α : Type} (hend : field.offset + field.size < Size.bound)
    (offset length : Option Nat) (transfer : TreeId → Nat → Nat → HostM DeviceError α) :
    field.Relays offset length (field.access offset length transfer) transfer := by
  constructor
  case within =>
    intro hle
    have hoffset : offset.getD 0 ≤ field.stop offset length := Nat.le_add_right _ _
    have hplace : (Size.add field.offset (offset.getD 0) : Outcome FieldError Nat)
        = .ok (field.offset + offset.getD 0) :=
      Size.add_eq_ok_iff.mpr ⟨rfl, by omega⟩
    unfold access pass
    rw [range_of_stop_le (by omega) hle]
    show (Host.requireStorage field.tree >>= fun tree =>
      liftM (Size.add field.offset (offset.getD 0)) >>= fun place =>
        Host.onDevice (transfer tree place _)) = _
    rw [hplace]
    rfl
  case beyond =>
    intro hlt hbound host
    rw [access, Host.runs_bind, Host.runs_lift, range_eq, if_neg (Nat.not_le.mpr hbound),
      if_pos hlt]
  case overflow =>
    intro hbound host
    rw [access, Host.runs_bind, Host.runs_lift, range_eq, if_pos hbound]

/-- **Ranges are relayed or refused.**  Reads and writes of a declared field, on any host, pass on
every range that ends within the field, and refuse every other whose end is an address without a
change.  The range from an offset to the end of the field always has such an end. -/
theorem ranges_relayed (hdeclared : field.Declared) (offset length : Option Nat)
    (words : List Word) :
    field.Relays offset length (field.read offset length) Host.readRegion ∧
      field.Relays offset (some (words.length * wordBytes)) (field.write words offset)
        (fun tree place _ => Host.writeRegion tree place words) ∧
      (offset.getD 0 < Size.bound → field.stop offset none < Size.bound) := by
  refine ⟨?_, ?_, hdeclared.stop_none_lt⟩
  · rw [read_eq_access]
    exact relays_access hdeclared.end_lt offset length _
  · rw [write_eq_access]
    exact relays_access hdeclared.end_lt offset _ _

/-- Four numbers behind forty bytes of other fields.  The end of a range is compared with the size
of the field and its start is shifted by forty. -/
theorem ranges_relayed_behind_others :
    ∃ field : Field, field.Declared ∧ field.offset = 40 ∧ field.size = 16 ∧
      (∀ host, Host.runs (field.read (some 12) (some 8)) host
        = (.error (.error (.sizeMismatch 16 20)), host)) ∧
      (∀ host, Host.runs (field.write [1, 2] (some 12)) host
        = (.error (.error (.sizeMismatch 16 20)), host)) ∧
      field.read (some 8) none = (do
        let tree ← Host.requireStorage 0
        Host.onDevice (Host.readRegion tree 48 8)) ∧
      field.write [5, 6] (some 8) = (do
        let tree ← Host.requireStorage 0
        Host.onDevice (Host.writeRegion tree 48 [5, 6])) := by
  obtain ⟨field, hdeclared, htree, hoffset, hsize⟩ : ∃ field : Field, field.Declared ∧
      field.tree = 0 ∧ field.offset = 40 ∧ field.size = 16 :=
    ⟨_, ⟨⟨[⟨40, 1, false, none⟩], 0⟩, .scalar .i32, [4], _, rfl⟩, rfl, rfl, rfl⟩
  obtain ⟨hread, hwrite, -⟩ := ranges_relayed hdeclared (some 12) (some 8) [1, 2]
  obtain ⟨htail, hlast, -⟩ := ranges_relayed hdeclared (some 8) none [5, 6]
  have hbeyond : field.size < 20 := by omega
  have haddress : 20 < Size.bound := by decide
  refine ⟨field, hdeclared, hoffset, hsize, ?_, ?_, ?_, ?_⟩
  · intro host
    rw [hread.beyond hbeyond haddress host, hsize]
    rfl
  · intro host
    rw [hwrite.beyond hbeyond haddress host, hsize]
    rfl
  · rw [htail.within (by rw [stop_none, hsize]; decide), pass, htree, hoffset, hsize]
    rfl
  · rw [hlast.within (show 16 ≤ field.size by omega), pass, htree, hoffset]
    rfl

/-- The last address and one byte.  The field has eight bytes, and neither the read nor the write
is told so. -/
theorem access_of_unaddressed_end :
    ∃ field : Field, field.Declared ∧ field.size = 8 ∧
      field.size < field.stop (some 0xffffffffffffffff) (some 1) ∧
      (∀ host, Host.runs (field.read (some 0xffffffffffffffff) (some 1)) host
        = (.error (.fault .overflow), host)) ∧
      field.size < field.stop (some 0xfffffffffffffffc) (some 4) ∧
      (∀ host, Host.runs (field.write [7] (some 0xfffffffffffffffc)) host
        = (.error (.fault .overflow), host)) := by
  obtain ⟨field, hdeclared, hsize⟩ : ∃ field : Field, field.Declared ∧ field.size = 8 :=
    ⟨_, ⟨Program.empty, .scalar .i32, [2], _, rfl⟩, rfl⟩
  have hread := relays_access hdeclared.end_lt (some 0xffffffffffffffff) (some 1)
    Host.readRegion
  have hwrite := relays_access hdeclared.end_lt (some 0xfffffffffffffffc) (some 4)
    fun tree place _ => Host.writeRegion tree place [7]
  have hbound : Size.bound ≤ 0x10000000000000000 := by decide
  have hlt : field.size < 0x10000000000000000 := by omega
  exact ⟨field, hdeclared, hsize, hlt, hread.overflow hbound, hlt, hwrite.overflow hbound⟩

end FieldStore.Field
