/-
Textures: images beside the fields.

A texture has one to three axes, none of them empty, and one, two or four components of one
primitive kind.  From these follows what a device needs to allocate it.  The format names kind
and components together, the dimension is the number of axes, and the extent lists the axes with
ones in the place of those that are missing.  The dimension keeps apart textures whose extents
agree only because of that padding.

A canvas texture belongs to a surface that is presented; the surface picks its format.
-/
import FieldStore.Element.Type
import FieldStore.Error

namespace FieldStore

/-- The identity of a texture within its program. -/
structure TextureId where
  number : Nat
  deriving DecidableEq, Repr

/-- How a texel is stored. -/
inductive TextureFormat
  | r32Float
  | rg32Float
  | rgba32Float
  | r32Sint
  | rg32Sint
  | rgba32Sint
  deriving DecidableEq, Repr

/-- The name of a format. -/
def TextureFormat.text : TextureFormat → String
  | r32Float => "R32Float"
  | rg32Float => "Rg32Float"
  | rgba32Float => "Rgba32Float"
  | r32Sint => "R32Sint"
  | rg32Sint => "Rg32Sint"
  | rgba32Sint => "Rgba32Sint"

/-- How many axes a texture has. -/
inductive TextureDimension
  | d1
  | d2
  | d3
  deriving DecidableEq, Repr

/-- The name of a dimension. -/
def TextureDimension.text : TextureDimension → String
  | d1 => "D1"
  | d2 => "D2"
  | d3 => "D3"

/-- What a texture may be used for. -/
inductive TextureUsage
  | copySource
  | copyDestination
  | textureBinding
  | storageBinding
  | renderAttachment
  deriving DecidableEq, Repr

/-- The name of a usage. -/
def TextureUsage.text : TextureUsage → String
  | copySource => "COPY_SRC"
  | copyDestination => "COPY_DST"
  | textureBinding => "TEXTURE_BINDING"
  | storageBinding => "STORAGE_BINDING"
  | renderAttachment => "RENDER_ATTACHMENT"

/-- The size of a texture along three axes. -/
structure Extent where
  width : Nat
  height : Nat
  depth : Nat
  deriving DecidableEq

/-- What a device needs to know to allocate a texture. -/
structure TextureDescriptor where
  label : Option String
  extent : Extent
  mipLevels : Nat
  samples : Nat
  dimension : TextureDimension
  format : TextureFormat
  usage : List TextureUsage
  viewFormats : List TextureFormat
  deriving DecidableEq

/-- An image resource. -/
structure Texture where
  id : TextureId
  primitive : Primitive
  components : Nat
  dims : List Nat
  deriving DecidableEq

namespace Texture

/-- The texture with the given properties, if there is one. -/
def ofDims (id : TextureId) (primitive : Primitive) (components : Nat) (dims : List Nat) :
    Outcome FieldError Texture :=
  if dims.length = 0 ∨ 3 < dims.length then
    .error (.error (.malformed (.textureRank dims.length)))
  else if 0 ∈ dims then .error (.error (.malformed (.textureZeroAxis dims)))
  else if components = 1 ∨ components = 2 ∨ components = 4 then
    .ok ⟨id, primitive, components, dims⟩
  else .error (.error (.malformed (.textureComponents components)))

/-- How the texels are stored. -/
def format (texture : Texture) : TextureFormat :=
  match texture.primitive, texture.components with
  | .f32, 1 => .r32Float
  | .f32, 2 => .rg32Float
  | .f32, _ => .rgba32Float
  | .i32, 1 => .r32Sint
  | .i32, 2 => .rg32Sint
  | .i32, _ => .rgba32Sint

/-- Whether one can render into the texture. -/
def isRenderTarget (texture : Texture) : Bool := texture.primitive == .f32

/-- How many axes the texture has. -/
def dimension (texture : Texture) : TextureDimension :=
  match texture.dims.length with
  | 1 => .d1
  | 2 => .d2
  | _ => .d3

/-- The axes, with ones for those that are missing. -/
def extent (texture : Texture) : Extent :=
  ⟨texture.dims.getD 0 1, texture.dims.getD 1 1, texture.dims.getD 2 1⟩

/-- What the texture may be used for. -/
def usage (texture : Texture) : List TextureUsage :=
  [.copySource, .copyDestination, .textureBinding, .storageBinding] ++
    if texture.isRenderTarget then [.renderAttachment] else []

/-- What a device needs to know to allocate the texture. -/
def descriptor (texture : Texture) : TextureDescriptor where
  label := none
  extent := texture.extent
  mipLevels := 1
  samples := 1
  dimension := texture.dimension
  format := texture.format
  usage := texture.usage
  viewFormats := []

end Texture

/-- A texture of a surface that is presented, whose format bears the name that the surface
gives it. -/
structure CanvasTexture where
  id : TextureId
  format : String
  deriving DecidableEq

/-- Whether one can render into a canvas texture: always. -/
def CanvasTexture.isRenderTarget (_ : CanvasTexture) : Bool := true

end FieldStore
