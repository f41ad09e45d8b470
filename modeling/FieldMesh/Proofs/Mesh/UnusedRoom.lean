import FieldMesh.Mesh.DualContouring
import FieldMesh.Proofs.Mesh.VertexSharing

/-!
# Unused room stays zero

Buffers start out as zeros and are written from the front, and a vertex that
is moved is one that was written.

* `Buffers.Spare`: all is zero past the written part, and every write keeps it
  so;
* `Surface.Tidy`: the same of a surface, whose points name written vertices;
* **main results**: `marchingCubes_spare` and `dualContouring_spare`.
-/

namespace FieldMesh.Mesh

/-! ## Results alone -/

theorem ends_any {ε : Type} (run : Except ε α) :
    Ends (fun _ => True) (fun _ => True) run := by
  cases run <;> trivial

/-- Errors may be renamed, where nothing is said of them. -/
theorem Ends.renamed {ε ε' : Type} {good : α → Prop} {run : Except ε α}
    (ends : Ends good (fun _ => True) run) (f : ε → ε') :
    Ends good (fun _ => True) (run.mapError f) := by
  cases run with
  | ok a => exact ends
  | error e => trivial

/-- A loop keeps what each of its steps keeps. -/
theorem Ends.keeps {α β ε : Type} {holds : β → Prop} {bad : ε → Prop}
    {step : β → α → Except ε β}
    (each : ∀ a b, holds b → Ends holds bad (step b a)) {items : List α} {b : β}
    (start : holds b) : Ends holds bad (items.foldlM step b) :=
  @Ends.foldlM α β ε bad step (fun _ => holds) (fun a _ => each a) items b start

/-! ## Writes -/

namespace Buffers

/-- Past the written part everything is zero. -/
structure Spare (b : Buffers) : Prop where
  positions : ∀ v ∈ b.positions.toList.drop b.vertexCount, v = Vec3.zero
  normals : ∀ v ∈ b.normals.toList.drop b.vertexCount, v = Vec3.zero
  indices : ∀ i ∈ b.indices.toList.drop b.indexCount, i = 0

theorem spare_blank (c : Capacity) : (blank c).Spare := by
  refine ⟨fun v member => ?_, fun v member => ?_, fun i member => ?_⟩ <;>
  · have among := List.mem_of_mem_drop member
    simp only [blank, Array.toList_replicate] at among
    exact List.eq_of_mem_replicate among

section

variable {b : Buffers}

theorem Spare.ends_addVertex (spare : b.Spare) (position normal : Vec3) :
    Ends (fun (i, b') => b'.Spare ∧ i.toNat < b'.vertexCount ∧
        b.vertexCount ≤ b'.vertexCount)
      (fun _ => True) (b.addVertex position normal) := by
  unfold addVertex
  simp only
  split
  · refine ⟨⟨?_, ?_, spare.indices⟩, ?_, Nat.le_succ _⟩
    · intro v member
      simp only [Array.toList_setIfInBounds] at member
      rw [drop_set_of_lt (Nat.lt_succ_self _)] at member
      exact spare.positions v (mem_drop_succ member)
    · intro v member
      simp only [Array.toList_setIfInBounds] at member
      rw [drop_set_of_lt (Nat.lt_succ_self _)] at member
      exact spare.normals v (mem_drop_succ member)
    · -- a number may be cut to 32 bits, but it does not grow
      have cut : (UInt32.ofNat b.vertexCount).toNat ≤ b.vertexCount := by
        rw [UInt32.toNat_ofNat']
        exact Nat.mod_le _ _
      exact Nat.lt_succ_of_le cut
  · trivial

theorem Spare.ends_addTriangle (spare : b.Spare) (i j k : UInt32) :
    Ends (fun b' => b'.Spare ∧ b'.vertexCount = b.vertexCount)
      (fun _ => True) (b.addTriangle i j k) := by
  unfold addTriangle
  simp only
  split
  · refine ⟨⟨spare.positions, spare.normals, fun v member => ?_⟩, rfl⟩
    simp only [Array.toList_setIfInBounds] at member
    rw [drop_set_of_lt (by omega), drop_set_of_lt (by omega),
      drop_set_of_lt (by omega)] at member
    exact spare.indices v (mem_drop_succ (mem_drop_succ (mem_drop_succ member)))
  · trivial

theorem Spare.moveVertex (spare : b.Spare) {i : UInt32}
    (written : i.toNat < b.vertexCount) (position normal : Vec3) :
    (b.moveVertex i position normal).Spare := by
  refine ⟨fun v member => ?_, fun v member => ?_, spare.indices⟩
  · simp only [Buffers.moveVertex, Array.toList_setIfInBounds] at member
    rw [drop_set_of_lt written] at member
    exact spare.positions v member
  · simp only [Buffers.moveVertex, Array.toList_setIfInBounds] at member
    rw [drop_set_of_lt written] at member
    exact spare.normals v member

theorem Spare.ends_addFacet (spare : b.Spare) (facet : Facet) :
    Ends Spare (fun _ => True) (b.addFacet facet) := by
  unfold addFacet
  refine (spare.ends_addVertex _ _).bind fun (i, b₁) ⟨spare₁, _⟩ => ?_
  refine (spare₁.ends_addVertex _ _).bind fun (j, b₂) ⟨spare₂, _⟩ => ?_
  refine (spare₂.ends_addVertex _ _).bind fun (k, b₃) ⟨spare₃, _⟩ => ?_
  exact (spare₃.ends_addTriangle i j k).mono fun _ => And.left

end

end Buffers

/-! ## Marching cubes -/

/-- What marching cubes leaves unused is zero. -/
theorem marchingCubes_spare {d : Density} {level scale : Float32}
    {b out : Buffers} (made : marchingCubes d level scale b = .ok out) :
    out.Spare := by
  have walked : Ends Buffers.Spare (fun _ => True)
      (walk d.lattice.cells (addCell d level (cellSize scale d.lattice.cells))
        (.blank b.capacity)) := by
    rw [walk_eq]
    refine Ends.keeps (fun cell b spare => ?_) (Buffers.spare_blank _)
    refine (ends_any (d.corners cell)).bind fun corners _ => ?_
    exact Ends.keeps (fun facet b spare => spare.ends_addFacet facet) spare
  have whole : Ends Buffers.Spare (fun _ => True)
      (marchingCubes d level scale b) :=
    (ends_any (checkCapacity b _)).bind fun _ _ => walked.renamed MeshError.fault
  rw [made] at whole
  exact whole

/-! ## Dual contouring -/

namespace Surface

/-- Unused room is zero, and points own vertices that are written. -/
structure Tidy (s : Surface) : Prop where
  spare : s.buffers.Spare
  owned : ∀ (slot : Nat) (i : UInt32), s.owned[slot]?.join = some i →
    i.toNat < s.buffers.vertexCount

theorem tidy_blank (cells : Nat) (room : Capacity) :
    (blank cells room).Tidy := by
  refine ⟨Buffers.spare_blank room, fun slot i owner => ?_⟩
  have found := Option.join_eq_some_iff.mp owner
  simp only [blank, Array.getElem?_replicate] at found
  split at found <;> cases found

variable {s : Surface}

theorem Tidy.ends_vertexOf (tidy : s.Tidy) (field : Field) (point : Point) :
    Ends (fun (_, s') => s'.Tidy) (fun _ => True) (s.vertexOf field point) := by
  unfold vertexOf
  simp only
  split
  · trivial
  split
  · exact tidy
  refine (ends_any (field.normal _)).bind fun normal _ => ?_
  refine (tidy.spare.ends_addVertex _ normal).bind
    fun (i, b) ⟨spare, written, grows⟩ => ?_
  simp only
  split
  · trivial
  refine ⟨spare, fun slot j owner => ?_⟩
  rw [Array.getElem?_setIfInBounds] at owner
  split at owner
  · split at owner
    · cases owner
      exact written
    · cases owner
  · exact Nat.lt_of_lt_of_le (tidy.owned slot j owner) grows

theorem Tidy.ends_addQuad (tidy : s.Tidy) (field : Field) (cell : Point)
    (flipped : Bool) (quad : Quad) :
    Ends Tidy (fun _ => True) (s.addQuad field cell flipped quad) := by
  unfold addQuad
  refine (tidy.ends_vertexOf field _).bind ?_
  rintro ⟨a, s₁⟩ tidy₁
  refine (tidy₁.ends_vertexOf field _).bind ?_
  rintro ⟨b, s₂⟩ tidy₂
  refine (tidy₂.ends_vertexOf field _).bind ?_
  rintro ⟨c, s₃⟩ tidy₃
  refine (tidy₃.ends_vertexOf field _).bind ?_
  rintro ⟨d, s₄⟩ tidy₄
  have triangles : Ends
      (fun b => b.Spare ∧ b.vertexCount = s₄.buffers.vertexCount)
      (fun _ => True)
      ((quadTriangles flipped a b c d).foldlM
        (fun (b : Buffers) t => b.addTriangle t.1 t.2.1 t.2.2) s₄.buffers) := by
    refine Ends.keeps (fun t b kept => ?_) ⟨tidy₄.spare, rfl⟩
    exact (kept.1.ends_addTriangle _ _ _).mono fun _ after =>
      ⟨after.1, after.2.trans kept.2⟩
  refine triangles.bind fun b kept => ⟨kept.1, fun slot i owner => ?_⟩
  exact kept.2.symm ▸ tidy₄.owned slot i owner

theorem Tidy.ends_addPoint (tidy : s.Tidy) (field : Field) (density : Density)
    (level : Float32) (point : Point) :
    Ends Tidy (fun _ => True) (s.addPoint field density level point) :=
  (ends_any (quadCode density point level)).bind fun _ _ =>
    Ends.keeps (fun quad _ tidy => tidy.ends_addQuad field point _ quad) tidy

theorem Tidy.ends_smoothPoint (tidy : s.Tidy) (field : Field)
    (density : Density) (level : Float32) (slot : Nat) :
    Ends Tidy (fun _ => True) (s.smoothPoint field density level slot) := by
  unfold smoothPoint
  refine (ends_any (density.corners _)).bind fun corners _ => ?_
  split
  · next mean index _ owner =>
    refine (ends_any (field.normal _)).bind fun normal _ => ?_
    exact ⟨tidy.spare.moveVertex (tidy.owned slot index owner) _ normal,
      tidy.owned⟩
  · exact tidy

end Surface

/-- What dual contouring leaves unused is zero. -/
theorem dualContouring_spare {d : Density} {program : Program} {r : Request}
    {b out : Buffers} (made : dualContouring d program r b = .ok out) :
    out.Spare := by
  let field : Field :=
    ⟨program, r.origin, cellSize r.scale d.lattice.cells, r.epsilon⟩
  have walked : Ends Surface.Tidy (fun _ => True)
      (walk d.lattice.cells (Surface.addPoint field d r.level)
        (.blank d.lattice.cells b.capacity)) := by
    rw [walk_eq]
    exact Ends.keeps
      (fun point _ tidy => tidy.ends_addPoint field d r.level point)
      (Surface.tidy_blank _ _)
  have surface : Ends Surface.Tidy (fun _ => True) (do
      let s ← walk d.lattice.cells (Surface.addPoint field d r.level)
        (.blank d.lattice.cells b.capacity)
      if r.smooth then s.smooth field d r.level else return s) := by
    refine walked.bind fun s tidy => ?_
    split
    · exact Ends.keeps
        (fun slot _ tidy => tidy.ends_smoothPoint field d r.level slot) tidy
    · exact tidy
  have whole : Ends Buffers.Spare (fun _ => True)
      (dualContouring d program r b) := by
    by_cases gradient : d.lattice.padding = .gradient
    · simp only [dualContouring, gradient]
      refine (ends_any (checkCapacity b _)).bind fun _ _ => ?_
      exact (surface.renamed MeshError.fault).bind fun s tidy => tidy.spare
    · simp only [dualContouring, ne_eq, gradient, not_false_eq_true, if_true]
      trivial
  rw [made] at whole
  exact whole

end FieldMesh.Mesh
