/-
What a descriptor tells about its texture.

A descriptor is read back part by part.  The format knows the kind and the number of components,
because a texture has one, two or four of them.  The dimension knows how many axes there are, and
so how many of the three axes of the extent are axes of the texture and not padding.  Between the
three nothing of the texture is lost but its number.
-/
import FieldStore.Image.Texture

namespace FieldStore

/-- The kind of the numbers in a format. -/
def TextureFormat.primitive : TextureFormat → Primitive
  | r32Float | rg32Float | rgba32Float => .f32
  | r32Sint | rg32Sint | rgba32Sint => .i32

/-- The number of components of a format. -/
def TextureFormat.components : TextureFormat → Nat
  | r32Float | r32Sint => 1
  | rg32Float | rg32Sint => 2
  | rgba32Float | rgba32Sint => 4

/-- The number of axes of a dimension. -/
def TextureDimension.rank : TextureDimension → Nat
  | d1 => 1
  | d2 => 2
  | d3 => 3

/-- The three axes of an extent. -/
def Extent.axes (extent : Extent) : List Nat := [extent.width, extent.height, extent.depth]

namespace Texture

variable {id : TextureId} {primitive : Primitive} {components : Nat} {dims : List Nat}

/-- What is asked of a texture. -/
structure Valid (components : Nat) (dims : List Nat) : Prop where
  /-- There is an axis. -/
  nonempty : 0 < dims.length
  /-- There are no more than three. -/
  rank_le : dims.length ≤ 3
  /-- None of them is empty. -/
  no_zero : 0 ∉ dims
  /-- A format has that many components. -/
  components : components = 1 ∨ components = 2 ∨ components = 4

theorem ofDims_of_valid (h : Valid components dims) :
    ofDims id primitive components dims = .ok ⟨id, primitive, components, dims⟩ := by
  have hrank : ¬ (dims.length = 0 ∨ 3 < dims.length) := by
    have hpos := h.nonempty
    have hle := h.rank_le
    omega
  rw [ofDims, if_neg hrank, if_neg h.no_zero, if_pos h.components]

/-- The rank is looked at first, then the axes, then the components. -/
theorem ofDims_of_not_valid (h : ¬ Valid components dims) :
    ∃ cause, ofDims id primitive components dims = .error (.error (.malformed cause)) := by
  unfold ofDims
  by_cases hrank : dims.length = 0 ∨ 3 < dims.length
  · exact ⟨_, if_pos hrank⟩
  rw [if_neg hrank]
  by_cases hzero : 0 ∈ dims
  · exact ⟨_, if_pos hzero⟩
  rw [if_neg hzero]
  by_cases hcomponents : components = 1 ∨ components = 2 ∨ components = 4
  · exact absurd ⟨by omega, by omega, hzero, hcomponents⟩ h
  · exact ⟨_, if_neg hcomponents⟩

/-- A texture that was made is what was asked for. -/
theorem ofDims_eq_ok {texture : Texture} (h : ofDims id primitive components dims = .ok texture) :
    Valid components dims ∧ texture = ⟨id, primitive, components, dims⟩ := by
  by_cases hvalid : Valid components dims
  · rw [ofDims_of_valid hvalid] at h
    exact ⟨hvalid, (Except.ok.inj h).symm⟩
  · obtain ⟨cause, herror⟩ := @ofDims_of_not_valid id primitive _ _ hvalid
    rw [herror] at h
    cases h

/-! ### Reading a descriptor back -/

variable {texture texture' : Texture}

theorem primitive_format (texture : Texture) : texture.format.primitive = texture.primitive := by
  unfold format
  split <;> simp_all [TextureFormat.primitive]

theorem components_format (h : Valid texture.components texture.dims) :
    texture.format.components = texture.components := by
  obtain ⟨id, primitive, components, dims⟩ := texture
  rcases h.components with rfl | rfl | rfl
  · cases primitive <;> rfl
  · cases primitive <;> rfl
  · cases primitive <;> rfl

/-- The dimension separates the axes from the padding behind them. -/
theorem take_rank_axes (h : Valid texture.components texture.dims) :
    texture.extent.axes.take texture.dimension.rank = texture.dims := by
  obtain ⟨id, primitive, components, dims⟩ := texture
  match dims, h with
  | [], h => exact absurd h.nonempty (Nat.lt_irrefl 0)
  | [_], _ => rfl
  | [_, _], _ => rfl
  | [_, _, _], _ => rfl
  | _ :: _ :: _ :: _ :: rest, h =>
      have hle := h.rank_le
      simp only [List.length_cons] at hle
      omega

/-- Textures of one format, dimension and extent differ in their numbers at most. -/
theorem eq_of_descriptor (h : Valid texture.components texture.dims)
    (h' : Valid texture'.components texture'.dims)
    (hformat : texture.descriptor.format = texture'.descriptor.format)
    (hdimension : texture.descriptor.dimension = texture'.descriptor.dimension)
    (hextent : texture.descriptor.extent = texture'.descriptor.extent) :
    texture.primitive = texture'.primitive ∧ texture.components = texture'.components ∧
      texture.dims = texture'.dims := by
  change texture.format = texture'.format at hformat
  change texture.dimension = texture'.dimension at hdimension
  change texture.extent = texture'.extent at hextent
  refine ⟨?_, ?_, ?_⟩
  · rw [← primitive_format, hformat, primitive_format]
  · rw [← components_format h, hformat, components_format h']
  · rw [← take_rank_axes h, hdimension, hextent, take_rank_axes h']

end Texture

end FieldStore
