/-
The handles of a program's textures.

Every call that makes a texture takes the next number, whether or not a texture comes of it, and
nothing else that a program does touches the counter.  So the handles of a run are some of the
numbers that follow the first one, in their order, and no more of them than there were calls.  The
counter is a machine word: numbers come round again, but only after 2^64 calls.
-/
import FieldStore.Proofs.Image.Texture
import FieldStore.Proofs.Store.Counter
import Mathlib.Data.List.Nodup

namespace FieldStore

/-! ### Calls -/

/-- A call that makes a texture. -/
inductive TextureCall
  | texture (primitive : Primitive) (components : Nat) (dims : List Nat)
  | canvas (format : String)

/-- Making a texture, of which only the handle is kept. -/
def TextureCall.run : TextureCall → HostM FieldError TextureId
  | texture primitive components dims => do
      let texture ← Host.texture primitive components dims
      return texture.id
  | canvas format => do
      let canvas ← Host.canvasTexture format
      return canvas.id

namespace Host

variable {host : Host}

theorem runs_texture (primitive : Primitive) (components : Nat) (dims : List Nat) (host : Host) :
    (runs (texture primitive components dims) host).1
      = Texture.ofDims ⟨host.program.nextTexture⟩ primitive components dims := by
  unfold texture
  rw [runs_bind]
  exact congrArg Prod.fst (runs_lift _ _)

/-- A texture that a program makes is what was asked for, under the next number. -/
theorem texture_eq_ok {primitive : Primitive} {components : Nat} {dims : List Nat}
    {found : Texture} (h : (runs (texture primitive components dims) host).1 = .ok found) :
    Texture.Valid components dims ∧
      found = ⟨⟨host.program.nextTexture⟩, primitive, components, dims⟩ := by
  rw [runs_texture] at h
  exact Texture.ofDims_eq_ok h

theorem ends_drawTextureId {ε : Type} {Q : TextureId → Host → Prop} {E : Failure ε → Host → Prop} :
    Ends (drawTextureId : HostM ε TextureId) host Q E
      ↔ Q ⟨host.program.nextTexture⟩ { host with
          program := { host.program with
            nextTexture := (host.program.nextTexture + 1) % Size.bound } } :=
  Iff.rfl

end Host

/-- **A call takes one number**, and its handle is that number if it has one. -/
theorem TextureCall.ends_run (call : TextureCall) (host : Host) :
    Host.Ends call.run host
      (fun id left => id = ⟨host.program.nextTexture⟩ ∧
        left.program.nextTexture = (host.program.nextTexture + 1) % Size.bound)
      (fun _ left => left.program.nextTexture = (host.program.nextTexture + 1) % Size.bound) := by
  cases call with
  | texture primitive components dims =>
      unfold run Host.texture
      rw [Host.ends_bind, Host.ends_bind, Host.ends_drawTextureId]
      refine Host.ends_lift ?_ fun _ _ => rfl
      intro texture hmade
      obtain ⟨-, rfl⟩ := Texture.ofDims_eq_ok hmade
      exact ⟨rfl, rfl⟩
  | canvas format => exact ⟨rfl, rfl⟩

/-! ### Runs -/

/-- One step of a run in which textures are made. -/
inductive Activity
  | call (call : TextureCall)
  | command (command : Command)

/-- Whether a step makes a texture, or tries to. -/
def Activity.isCall : Activity → Bool
  | call _ => true
  | command _ => false

namespace Ledger

variable {ledger : Ledger}

/-- The ledger after a step. -/
def act (ledger : Ledger) : Activity → Ledger
  | .call call => { ledger with host := (Host.runs call.run ledger.host).2 }
  | .command command => ledger.step command

/-- The handle that a step hands out. -/
def handed (ledger : Ledger) : Activity → List TextureId
  | .call call =>
      match (Host.runs call.run ledger.host).1 with
      | .ok id => [id]
      | .error _ => []
  | .command _ => []

/-- The handles of a run, of textures and canvas textures alike. -/
def handles : Ledger → List Activity → List TextureId
  | _, [] => []
  | ledger, activity :: rest => ledger.handed activity ++ (ledger.act activity).handles rest

/-- The number of the next texture. -/
def counter (ledger : Ledger) : Nat := ledger.host.program.nextTexture

theorem counter_act_call (call : TextureCall) :
    (ledger.act (.call call)).counter = (ledger.counter + 1) % Size.bound := by
  refine Host.outcome_of_ends
    (P := fun _ left => left.program.nextTexture = (ledger.counter + 1) % Size.bound) ?_
  exact Host.ends_mono (call.ends_run ledger.host) (fun _ _ h => h.2) fun _ _ h => h

theorem counter_act_command (command : Command) :
    (ledger.act (.command command)).counter = ledger.counter :=
  command.keepsCounter_run ledger.fields ledger.host

theorem handed_call (call : TextureCall) :
    (ledger.handed (.call call)).Sublist [⟨ledger.counter⟩] := by
  rcases Host.runs_of_ends (call.ends_run ledger.host) with
    ⟨id, left, hrun, rfl, -⟩ | ⟨_, _, hrun, -⟩
  · simp only [handed, hrun]
    exact List.Sublist.refl _
  · simp only [handed, hrun]
    exact List.nil_sublist _

end Ledger

/-! ### Numbers in a row -/

/-- So many numbers in a row, as the counter yields them. -/
def textureIds (next count : Nat) : List TextureId :=
  (List.range count).map fun k => ⟨(next + k) % Size.bound⟩

theorem textureIds_succ {next : Nat} (hnext : next < Size.bound) (count : Nat) :
    textureIds next (count + 1)
      = ⟨next⟩ :: textureIds ((next + 1) % Size.bound) count := by
  unfold textureIds
  rw [List.range_succ_eq_map, List.map_cons, List.map_map, Nat.add_zero, Nat.mod_eq_of_lt hnext]
  congr 1
  refine List.map_congr_left fun k _ => ?_
  rw [Function.comp_apply, Nat.mod_add_mod, Nat.succ_eq_add_one, Nat.add_right_comm, Nat.add_assoc]

/-- They do not come round before all have been there. -/
theorem nodup_textureIds {next count : Nat} (hcount : count ≤ Size.bound) :
    (textureIds next count).Nodup := by
  refine List.Nodup.map_on ?_ List.nodup_range
  intro i hi j hj heq
  rw [List.mem_range] at hi hj
  have hmod : (next + i) % Size.bound = (next + j) % Size.bound := congrArg TextureId.number heq
  simp only [Size.bound] at hcount hmod
  omega

namespace Ledger

/-- The handles of a run are some of the numbers that its calls take, in order.  The induction is
on the run; the counter stays a machine word. -/
theorem handles_sublist :
    ∀ (activities : List Activity) (ledger : Ledger), ledger.counter < Size.bound →
      (ledger.handles activities).Sublist
        (textureIds ledger.counter (activities.countP Activity.isCall)) := by
  intro activities
  induction activities with
  | nil => intro ledger _; exact List.Sublist.refl _
  | cons activity rest ih =>
      intro ledger hcounter
      cases activity with
      | call call =>
          have hnext := @counter_act_call ledger call
          have hrest := ih (ledger.act (.call call)) (hnext ▸ Nat.mod_lt _ (by decide))
          rw [hnext] at hrest
          rw [List.countP_cons_of_pos rfl, textureIds_succ hcounter, handles]
          exact (handed_call call).append hrest
      | command command =>
          have hsame := @counter_act_command ledger command
          have hrest := ih (ledger.act (.command command)) (hsame ▸ hcounter)
          rw [hsame] at hrest
          rw [List.countP_cons_of_neg (by simp [Activity.isCall]), handles]
          exact hrest

theorem nodup_handles {ledger : Ledger} {activities : List Activity}
    (hcounter : ledger.counter < Size.bound)
    (hcalls : activities.countP Activity.isCall ≤ Size.bound) :
    (ledger.handles activities).Nodup :=
  (nodup_textureIds hcalls).sublist (handles_sublist activities ledger hcounter)

end Ledger

/-- **Textures are told apart by what describes them and by their handles.**  A program makes the
texture that it is asked for, under its next number, if there are one to three axes, none of them
zero, and one, two or four components; any other request is malformed.  Of two textures that were
made, by whatever programs and in whatever states, the descriptors have the same format, dimension
and extent if and only if they were asked for with the same kind, components and axes.  And the
handles that a program hands out are pairwise different, those of canvas textures included, over
every run with fewer than 2^64 calls for a texture, whichever of these fail and whatever else is
done to the program's fields and memory in between. -/
theorem textures_told_apart :
    (∀ (host : Host) (primitive : Primitive) (components : Nat) (dims : List Nat),
      (Texture.Valid components dims →
        (Host.runs (Host.texture primitive components dims) host).1
          = .ok ⟨⟨host.program.nextTexture⟩, primitive, components, dims⟩) ∧
      (¬ Texture.Valid components dims →
        ∃ cause, (Host.runs (Host.texture primitive components dims) host).1
          = .error (.error (.malformed cause)))) ∧
    (∀ (host host' : Host) (primitive primitive' : Primitive) (components components' : Nat)
      (dims dims' : List Nat) (texture texture' : Texture),
      (Host.runs (Host.texture primitive components dims) host).1 = .ok texture →
      (Host.runs (Host.texture primitive' components' dims') host').1 = .ok texture' →
        (texture.descriptor.format = texture'.descriptor.format ∧
            texture.descriptor.dimension = texture'.descriptor.dimension ∧
            texture.descriptor.extent = texture'.descriptor.extent
          ↔ primitive = primitive' ∧ components = components' ∧ dims = dims')) ∧
    ∀ (limit : Option Nat) (nextId : Nat) (activities : List Activity),
      activities.countP Activity.isCall < Size.bound →
        ((Ledger.start limit nextId).handles activities).Nodup := by
  refine ⟨?_, ?_, ?_⟩
  · intro host primitive components dims
    rw [Host.runs_texture]
    exact ⟨Texture.ofDims_of_valid, Texture.ofDims_of_not_valid⟩
  · intro host host' primitive primitive' components components' dims dims' texture texture' h h'
    obtain ⟨hvalid, rfl⟩ := Host.texture_eq_ok h
    obtain ⟨hvalid', rfl⟩ := Host.texture_eq_ok h'
    constructor
    · rintro ⟨hformat, hdimension, hextent⟩
      exact Texture.eq_of_descriptor hvalid hvalid' hformat hdimension hextent
    · rintro ⟨rfl, rfl, rfl⟩
      exact ⟨rfl, rfl, rfl⟩
  · intro limit nextId activities hcalls
    have hcounter : (Ledger.start limit nextId).counter < Size.bound := by
      show 0 < Size.bound
      decide
    exact Ledger.nodup_handles hcounter (Nat.le_of_lt hcalls)

/-- A line of eight texels and a grid of eight by one have the same extent and are told apart by
their dimension; and a call that fails takes a number like any other. -/
theorem textures_told_apart_of_one_extent :
    let ledger := Ledger.start none 0
    let line : Texture := ⟨⟨0⟩, .f32, 2, [8]⟩
    let grid : Texture := ⟨⟨0⟩, .f32, 2, [8, 1]⟩
    let run : List Activity :=
      [.call (.texture .f32 2 [8]), .call (.texture .f32 3 [8]),
        .command (.declare (.scalar .i32) [2]), .call (.canvas "Bgra8Unorm"),
        .call (.texture .f32 2 [8, 1])]
    (Host.runs (Host.texture .f32 2 [8]) ledger.host).1 = .ok line ∧
      (Host.runs (Host.texture .f32 2 [8, 1]) ledger.host).1 = .ok grid ∧
      line.descriptor.extent = grid.descriptor.extent ∧
      line.descriptor.dimension ≠ grid.descriptor.dimension ∧
      run.countP Activity.isCall < Size.bound ∧ (ledger.handles run).Nodup ∧
      ledger.handles run = [⟨0⟩, ⟨2⟩, ⟨3⟩] := by
  intro ledger line grid run
  obtain ⟨hmade, htold, hhandles⟩ := textures_told_apart
  have hline : (Host.runs (Host.texture .f32 2 [8]) ledger.host).1 = .ok line :=
    (hmade ledger.host .f32 2 [8]).1 ⟨by decide, by decide, by decide, by decide⟩
  have hgrid : (Host.runs (Host.texture .f32 2 [8, 1]) ledger.host).1 = .ok grid :=
    (hmade ledger.host .f32 2 [8, 1]).1 ⟨by decide, by decide, by decide, by decide⟩
  refine ⟨hline, hgrid, rfl, ?_, by decide, hhandles none 0 run (by decide), rfl⟩
  intro hdimension
  have hsame := (htold _ _ _ _ _ _ _ _ line grid hline hgrid).mp ⟨rfl, hdimension, rfl⟩
  exact absurd hsame.2.2 (by decide)

end FieldStore
