import FieldMesh.Mesh.Wavefront
import FieldMesh.Proofs.Mesh.Output
import FieldMesh.Proofs.Mesh.Smoothing
import FieldMesh.Proofs.Mesh.TextReading

/-!
# Mesh texts carry the whole mesh

What is written for a mesh reads back: its positions, its normals and its
triangles.

* `spells_position`, `spells_normal`, `spells_faceLines`, `spells_remark`: the
  lines that are written;
* `faceLines_eq_wordFaceLines`: when numbers in words make no difference;
* `Buffers.records`: what they read as;
* `inStep_of_extract`: the triangles of a surface name its vertices;
* `Buffers.CarriedBy`: a mesh that is found in records;
* **main result**: `extract_wavefront`.
-/

namespace FieldMesh.Mesh

open FieldMesh.Decimal FieldMesh.Formula

/-! ## Written lines -/

/-- The words of a vector. -/
def vectorWords (v : Vec3) : List (List Char) :=
  [(formulaText v.x).toList, (formulaText v.y).toList, (formulaText v.z).toList]

/-- The numbers of a vector read back. -/
def VectorReadsBack (v : Vec3) : Prop :=
  ReadsBack v.x ∧ ReadsBack v.y ∧ ReadsBack v.z

theorem vector?_vectorWords {v : Vec3} (readsBack : VectorReadsBack v) :
    vector? (vectorWords v) = some v := by
  obtain ⟨x, y, z⟩ := readsBack
  simp only [ReadsBack] at x y z
  rw [vectorWords, vector?, x, y, z]
  rfl

theorem isWord_vectorWords (v : Vec3) : ∀ word ∈ vectorWords v, IsWord word := by
  simp [vectorWords, isWord_formulaText]

/-- A word and the numbers of a vector. -/
theorem spells_vector {line : String} (kind : List Char) {v : Vec3} {r : Record}
    (word : IsWord kind)
    (spelled : line.toList = kind ++ ' ' :: (numbersText v).toList)
    (reads : Record.ofWords? (kind :: vectorWords v) = some r) : Spells line r := by
  refine spells_of_words (kind :: vectorWords v) (List.cons_ne_nil _ _)
    (List.forall_mem_cons.mpr ⟨word, isWord_vectorWords v⟩) ?_ reads
  simp [spelled, numbersText, vectorWords, List.intercalate_cons_cons]

theorem spells_position {v : Vec3} (readsBack : VectorReadsBack v) :
    Spells ("v " ++ numbersText v) (.position v) := by
  refine spells_vector ['v'] (v := v) (by decide)
    (String.toList_append ..) ?_
  rw [Record.ofWords?, vector?_vectorWords readsBack, Option.map_some]

theorem spells_normal {v : Vec3} (readsBack : VectorReadsBack v) :
    Spells ("vn " ++ numbersText v) (.normal v) := by
  refine spells_vector ['v', 'n'] (v := v) (by decide)
    (String.toList_append ..) ?_
  rw [Record.ofWords?, vector?_vectorWords readsBack, Option.map_some]

/-- The word of a corner. -/
def cornerWord (n : Nat) : List Char :=
  Nat.toDigits 10 n ++ '/' :: '/' :: Nat.toDigits 10 n

theorem isWord_cornerWord (n : Nat) : IsWord (cornerWord n) := by
  have slashes : IsWord ['/', '/'] := by decide
  exact isWord_append (isWord_toDigits n) (isWord_append slashes (isWord_toDigits n))

theorem corner?_cornerWord (n : Nat) : corner? (cornerWord n) = some (n, n) := by
  have digits : '/' ∉ Nat.toDigits 10 n := fun slash =>
    absurd (Json.isDigit_of_mem_toDigits slash) (by decide)
  have parts : (cornerWord n).splitOn '/' =
      [Nat.toDigits 10 n, [], Nat.toDigits 10 n] := by
    rw [cornerWord, List.splitOn_append_cons_self_of_not_mem digits,
      ← List.nil_append ('/' :: _),
      List.splitOn_append_cons_self_of_not_mem List.not_mem_nil,
      List.splitOn_eq_singleton digits]
  simp only [corner?, parts, count?_toDigits]
  rfl

/-- The numbers of a vertex, counted from one. -/
def numbersOf (i : UInt32) : CornerNumbers := (i.toNat + 1, i.toNat + 1)

/-- The triangles of a list of indices, as a reader takes them. -/
def faceRecords : List UInt32 → List Record
  | i :: j :: k :: rest =>
    .triangle (numbersOf i) (numbersOf j) (numbersOf k) :: faceRecords rest
  | _ => []

theorem spells_faceLines (indices : List UInt32) :
    List.Forall₂ Spells (faceLines indices) (faceRecords indices) := by
  induction indices using faceLines.induct with
  | case1 i j k rest ih =>
    refine .cons (spells_of_words
      [['f'], cornerWord (i.toNat + 1), cornerWord (j.toNat + 1),
        cornerWord (k.toNat + 1)] (List.cons_ne_nil _ _) ?_ ?_ ?_) ih
    · have word : IsWord ['f'] := by decide
      simp [word, isWord_cornerWord]
    · simp [cornerWord, List.intercalate_cons_cons]
    · simp only [Record.ofWords?, triangle?, corner?_cornerWord]
      rfl
  | case2 indices short =>
    rw [faceLines, faceRecords]
    · exact .nil
    · exact short
    · exact short

/-- The lines of the triangles, with numbers that are added up in words. -/
def wordFaceLines : List UInt32 → List String
  | i :: j :: k :: rest =>
    let corner (i : UInt32) : String :=
      let n := toString (i + 1)
      n ++ "//" ++ n
    ("f " ++ corner i ++ " " ++ corner j ++ " " ++ corner k) :: wordFaceLines rest
  | _ => []

/-- No word overflows as long as every index leaves room for one more. -/
theorem faceLines_eq_wordFaceLines {indices : List UInt32}
    (small : ∀ i ∈ indices, i.toNat + 1 < UInt32.size) :
    faceLines indices = wordFaceLines indices := by
  have text {i : UInt32} (room : i.toNat + 1 < UInt32.size) :
      toString (i + 1) = toString (i.toNat + 1) := by
    refine congrArg Nat.repr ?_
    rw [UInt32.toNat_add]
    exact Nat.mod_eq_of_lt room
  induction indices using faceLines.induct with
  | case1 i j k rest ih =>
    simp only [List.forall_mem_cons] at small
    obtain ⟨first, second, third, others⟩ := small
    rw [faceLines, wordFaceLines]
    simp only [text first, text second, text third, ih others]
  | case2 indices short =>
    rw [faceLines, wordFaceLines]
    · exact short
    · exact short

/-- A remark that announces a number. -/
theorem spells_remark {line : String} {name : List Char} {n : Nat}
    (word : IsWord name)
    (spelled : line.toList = '#' :: ' ' :: (name ++ ' ' :: Nat.toDigits 10 n)) :
    Spells line (.remark [name, Nat.toDigits 10 n]) := by
  refine spells_of_words [['#'], name, Nat.toDigits 10 n]
    (List.cons_ne_nil _ _) ?_ ?_ rfl
  · have mark : IsWord ['#'] := by decide
    simp [mark, word, isWord_toDigits]
  · simp [spelled, List.intercalate_cons_cons]

theorem spells_blank : Spells "" .blank where
  oneLine := by decide
  reads := rfl

/-- The remarks at the head of a mesh. -/
def Buffers.remarks (b : Buffers) : List Record :=
  [.remark ["Isoforge".toList, "OBJ".toList, "Export".toList],
    .remark ["Vertices:".toList, Nat.toDigits 10 b.vertexCount],
    .remark ["Triangles:".toList, Nat.toDigits 10 b.triangleCount]]

/-- The lines of a mesh, as a reader takes them. -/
def Buffers.records (b : Buffers) : List Record :=
  b.remarks ++ [.blank] ++ b.writtenPositions.map .position ++ [.blank] ++
    b.writtenNormals.map .normal ++ [.blank] ++ faceRecords b.writtenIndices

theorem forall₂_map {α β γ : Type} {related : β → γ → Prop} {f : α → β} {g : α → γ}
    {l : List α} (each : ∀ a ∈ l, related (f a) (g a)) :
    List.Forall₂ related (l.map f) (l.map g) := by
  rw [List.forall₂_map_left_iff, List.forall₂_map_right_iff, List.forall₂_same]
  exact each

/-- Every line of a mesh is read. -/
theorem Buffers.spells_wavefrontLines {b : Buffers}
    (readsBack : ∀ v ∈ b.writtenPositions ++ b.writtenNormals, VectorReadsBack v) :
    List.Forall₂ Spells b.wavefrontLines b.records := by
  obtain ⟨positions, normals⟩ := List.forall_mem_append.mp readsBack
  have title : Spells "# Isoforge OBJ Export"
      (.remark ["Isoforge".toList, "OBJ".toList, "Export".toList]) := by
    constructor
    · decide
    · rfl
  have vertices : Spells ("# Vertices: " ++ toString b.vertexCount)
      (.remark ["Vertices:".toList, Nat.toDigits 10 b.vertexCount]) :=
    spells_remark (by decide) (by simp)
  have triangles : Spells ("# Triangles: " ++ toString b.triangleCount)
      (.remark ["Triangles:".toList, Nat.toDigits 10 b.triangleCount]) :=
    spells_remark (by decide) (by simp)
  have apart : List.Forall₂ Spells [""] [.blank] := .cons spells_blank .nil
  have header := List.Forall₂.cons title
    (.cons vertices (.cons triangles apart))
  unfold wavefrontLines records
  refine List.rel_append (List.rel_append (List.rel_append (List.rel_append
    (List.rel_append header ?_) apart) ?_) apart) (spells_faceLines _)
  · exact forall₂_map fun v member => spells_position (positions v member)
  · exact forall₂_map fun v member => spells_normal (normals v member)

/-! ## What the lines of a mesh say -/

/-- Only triangles are read off the lines of triangles. -/
theorem filterMap_faceRecords {α : Type} {f : Record → Option α}
    (other : ∀ a b c, f (.triangle a b c) = none) (indices : List UInt32) :
    (faceRecords indices).filterMap f = [] := by
  induction indices using faceRecords.induct with
  | case1 i j k rest ih => rw [faceRecords, List.filterMap_cons_none (other ..), ih]
  | case2 indices short =>
    rw [faceRecords]
    · rfl
    · exact short

namespace Buffers

/-- What is read off the lines of a mesh is read off its remarks, positions,
normals and triangles. -/
theorem filterMap_records (b : Buffers) {α : Type} {f : Record → Option α}
    (blank : f .blank = none) :
    b.records.filterMap f =
      b.remarks.filterMap f ++ b.writtenPositions.filterMap (f ∘ .position) ++
        b.writtenNormals.filterMap (f ∘ .normal) ++
        (faceRecords b.writtenIndices).filterMap f := by
  simp only [records, List.filterMap_append, List.filterMap_map,
    List.filterMap_cons_none blank, List.filterMap_nil, List.append_nil]

theorem positionsIn_records (b : Buffers) :
    positionsIn b.records = b.writtenPositions := by
  rw [positionsIn, b.filterMap_records rfl, filterMap_faceRecords fun _ _ _ => rfl]
  simp [Function.comp_def, Record.position?, remarks]

theorem normalsIn_records (b : Buffers) :
    normalsIn b.records = b.writtenNormals := by
  rw [normalsIn, b.filterMap_records rfl, filterMap_faceRecords fun _ _ _ => rfl]
  simp [Function.comp_def, Record.normal?, remarks]

theorem trianglesIn_records (b : Buffers) :
    trianglesIn b.records = trianglesIn (faceRecords b.writtenIndices) := by
  rw [trianglesIn, b.filterMap_records rfl]
  simp [Function.comp_def, Record.corners?, remarks, trianglesIn]

/-- The first remark announces nothing, and each of the others one number. -/
theorem announced_records (b : Buffers) (name : String) :
    announced b.records name =
      (if "Vertices:".toList = name.toList then [b.vertexCount] else []) ++
        if "Triangles:".toList = name.toList then [b.triangleCount] else [] := by
  rw [announced, b.filterMap_records rfl, filterMap_faceRecords fun _ _ _ => rfl]
  simp only [remarks, List.filterMap_cons, List.filterMap_nil, Record.announced?,
    count?_toDigits, Function.comp_def, List.filterMap_none, List.append_nil]
  by_cases vertices : "Vertices:".toList = name.toList <;>
    by_cases triangles : "Triangles:".toList = name.toList <;>
    simp only [vertices, triangles, if_true, if_false] <;> rfl

end Buffers

/-! ## Triangles -/

/-- Indices in threes are the corners of triangles, one after the other, with a
line for each triangle. -/
theorem trianglesIn_faceRecords {indices : List UInt32}
    (threes : 3 ∣ indices.length) :
    (trianglesIn (faceRecords indices)).flatten = indices.map numbersOf ∧
      (trianglesIn (faceRecords indices)).length = indices.length / 3 ∧
      (faceRecords indices).length = indices.length / 3 ∧
      ∀ corners ∈ trianglesIn (faceRecords indices), corners.length = 3 := by
  induction indices using faceRecords.induct with
  | case1 i j k rest ih =>
    obtain ⟨flat, count, lines, three⟩ :=
      ih ((Nat.dvd_add_left (Nat.dvd_refl 3)).mp threes)
    have first : trianglesIn (faceRecords (i :: j :: k :: rest)) =
        [numbersOf i, numbersOf j, numbersOf k] ::
          trianglesIn (faceRecords rest) := rfl
    have third : (i :: j :: k :: rest).length / 3 = rest.length / 3 + 1 := by
      simp only [List.length_cons]
      omega
    rw [first, third]
    refine ⟨?_, ?_, ?_, List.forall_mem_cons.mpr ⟨rfl, three⟩⟩
    · rw [List.flatten_cons, flat]
      rfl
    · rw [List.length_cons, count]
    · rw [faceRecords, List.length_cons, lines]
  | case2 indices short =>
    have empty : indices = [] := by
      rcases indices with _ | ⟨i, _ | ⟨j, _ | ⟨k, rest⟩⟩⟩
      · rfl
      · exact absurd threes (by simp)
      · exact absurd threes (by simp)
      · exact absurd rfl (short i j k rest)
    subst empty
    exact ⟨rfl, rfl, rfl, nofun⟩

/-! ## Surfaces -/

/-- The triangles of buffers name vertices that are written. -/
structure Buffers.InStep (b : Buffers) : Prop where
  inOrder : b.InOrder
  triangles : 3 ∣ b.indexCount
  inside : ∀ i ∈ b.writtenIndices, i.toNat < b.vertexCount

/-- A number of 32 bits is at most the number that it is made from. -/
theorem toNat_ofNat_le (n : Nat) : (UInt32.ofNat n).toNat ≤ n := Nat.mod_le _ _

/-- What gets a surface has room for it. -/
theorem room_of_marchingCubes {d : Density} {level scale : Float32} {b out : Buffers}
    (made : marchingCubes d level scale b = .ok out) :
    b.capacity.holds (Algorithm.marchingCubes.capacity d.lattice.cells) = true := by
  by_contra small
  simp only [marchingCubes, checkCapacity, if_neg small] at made
  cases made

theorem inStep_of_marchingCubes {d : Density} {level scale : Float32} {b out : Buffers}
    (made : marchingCubes d level scale b = .ok out) : out.InStep := by
  have room := room_of_marchingCubes made
  obtain ⟨_, made', grows⟩ := marchingCubes_eq room level scale
  obtain rfl := Except.ok.inj (made.symm.trans made')
  let surface := surfaceTriangles d.lattice.cells (d.below level)
  obtain ⟨vertices, indices, written⟩ := grows.facets
  refine ⟨grows.inOrder, ⟨_, indices⟩, fun i member => ?_⟩
  rw [written] at member
  obtain ⟨n, below, rfl⟩ := List.mem_map.mp member
  rw [vertices]
  exact Nat.lt_of_le_of_lt (toNat_ofNat_le n) (List.mem_range.mp below)

theorem inStep_of_dualContouring {d : Density} {program : Program} {r : Request}
    {b out : Buffers} (made : dualContouring d program r b = .ok out) :
    out.InStep ∧ out.vertexCount < UInt32.size := by
  have gradient : d.lattice.padding = .gradient := by
    by_contra other
    simp only [dualContouring, ne_eq, other, not_false_eq_true, if_true] at made
    cases made
  obtain ⟨s, rfl, holds⟩ := exists_holds_of_ok program r gradient made
  refine ⟨⟨holds.inOrder, ⟨_, holds.indexCount⟩, fun i member => ?_⟩,
    holds.vertexCount ▸ holds.few⟩
  obtain ⟨p, found⟩ := holds.named member
  rw [holds.vertexCount]
  exact (List.getElem?_eq_some_iff.mp found).1

/-- The triangles of a surface name its vertices, and in a region that is not
too large their numbers have 32 bits. -/
theorem inStep_of_extract {d : Density} {program : Program} {r : Request}
    {b out : Buffers} (made : extract d program r b = .ok out) :
    out.InStep ∧ (d.lattice.cells ≤ maxCells → out.vertexCount < UInt32.size) := by
  unfold extract at made
  split at made
  · refine ⟨inStep_of_marchingCubes made, fun few => ?_⟩
    obtain ⟨_, made', complete, -⟩ :=
      marchingCubes_complete few (room_of_marchingCubes made) r.level r.scale
    obtain rfl := Except.ok.inj (made.symm.trans made')
    exact complete.numbers
  · obtain ⟨inStep, numbers⟩ := inStep_of_dualContouring made
    exact ⟨inStep, fun _ => numbers⟩

/-! ## Main result -/

/-- What a reader finds of a mesh: its positions, normals and triangles in
order, the announced counts, and no line besides. -/
structure Buffers.CarriedBy (b : Buffers) (records : List Record) : Prop where
  positions : positionsIn records = b.writtenPositions
  normals : normalsIn records = b.writtenNormals
  triangles : (trianglesIn records).flatten = b.writtenIndices.map numbersOf
  corners : ∀ corners ∈ trianglesIn records, corners.length = 3
  paired : (normalsIn records).length = (positionsIn records).length
  /-- Corners have the number of a position, and their normal has the same. -/
  numbers : ∀ corners ∈ trianglesIn records, ∀ corner ∈ corners,
    1 ≤ corner.1 ∧ corner.1 ≤ (positionsIn records).length ∧
      corner.2 = corner.1
  vertexCount : announced records "Vertices:" = [(positionsIn records).length]
  triangleCount : announced records "Triangles:" = [(trianglesIn records).length]
  /-- The other lines are three remarks and three blank ones. -/
  lines : records.length = 6 + (positionsIn records).length +
    (normalsIn records).length + (trianglesIn records).length

namespace Buffers

variable {b b' : Buffers}

theorem InOrder.length_writtenPositions (inOrder : b.InOrder) :
    b.writtenPositions.length = b.vertexCount := by
  rw [writtenPositions, List.length_take, Array.length_toList]
  exact Nat.min_eq_left inOrder.vertices

theorem InOrder.length_writtenNormals (inOrder : b.InOrder) :
    b.writtenNormals.length = b.vertexCount := by
  rw [writtenNormals, List.length_take, Array.length_toList, inOrder.normals]
  exact Nat.min_eq_left inOrder.vertices

theorem InOrder.length_writtenIndices (inOrder : b.InOrder) :
    b.writtenIndices.length = b.indexCount := by
  rw [writtenIndices, List.length_take, Array.length_toList]
  exact Nat.min_eq_left inOrder.indices

/-- The text depends on nothing but what is written. -/
theorem wavefront_congr (inOrder : b.InOrder) (inOrder' : b'.InOrder)
    (positions : b'.writtenPositions = b.writtenPositions)
    (normals : b'.writtenNormals = b.writtenNormals)
    (indices : b'.writtenIndices = b.writtenIndices) :
    b'.wavefront = b.wavefront := by
  have vertices : b'.vertexCount = b.vertexCount := by
    rw [← inOrder.length_writtenPositions, ← inOrder'.length_writtenPositions,
      positions]
  have count : b'.indexCount = b.indexCount := by
    rw [← inOrder.length_writtenIndices, ← inOrder'.length_writtenIndices, indices]
  simp only [wavefront, wavefrontLines, triangleCount, positions, normals, indices,
    vertices, count]

/-- Buffers whose triangles name their vertices are found in their lines. -/
theorem InStep.carriedBy (inStep : b.InStep) : b.CarriedBy b.records := by
  have inOrder := inStep.inOrder
  have threes : 3 ∣ b.writtenIndices.length := by
    rw [inOrder.length_writtenIndices]
    exact inStep.triangles
  obtain ⟨flat, count, lines, three⟩ := trianglesIn_faceRecords threes
  constructor
  · exact b.positionsIn_records
  · exact b.normalsIn_records
  · rw [b.trianglesIn_records, flat]
  · rw [b.trianglesIn_records]
    exact three
  · rw [b.positionsIn_records, b.normalsIn_records,
      inOrder.length_writtenPositions, inOrder.length_writtenNormals]
  · rw [b.trianglesIn_records, b.positionsIn_records,
      inOrder.length_writtenPositions]
    intro corners member corner inside
    have listed : corner ∈ b.writtenIndices.map numbersOf :=
      flat ▸ List.mem_flatten.mpr ⟨corners, member, inside⟩
    obtain ⟨i, index, rfl⟩ := List.mem_map.mp listed
    exact ⟨Nat.le_add_left 1 _, inStep.inside i index, rfl⟩
  · rw [b.announced_records, b.positionsIn_records,
      inOrder.length_writtenPositions]
    rfl
  · rw [b.announced_records, b.trianglesIn_records, count,
      inOrder.length_writtenIndices]
    rfl
  · rw [b.positionsIn_records, b.normalsIn_records, b.trianglesIn_records, count,
      ← lines]
    simp only [records, remarks, List.length_append, List.length_map,
      List.length_cons, List.length_nil]
    omega

end Buffers

/-- **Mesh texts carry the whole mesh.** Whatever surface is extracted, if its
numbers read back, then its text is readable to the last line. It yields the
positions and normals bit for bit and the corners of the triangles in order,
under numbers that count from one and do not exceed the positions. The
announced counts are those of the lines. Unused room is not in the text: it is
that of all buffers with the same written part. In a region that is not too
large, all numbers have 32 bits, also when one is added. -/
theorem extract_wavefront {d : Density} {program : Program} {r : Request}
    {b out : Buffers} (made : extract d program r b = .ok out)
    (readsBack : ∀ v ∈ out.writtenPositions ++ out.writtenNormals,
      VectorReadsBack v) :
    (∃ records, records? out.wavefront = some records ∧ out.CarriedBy records) ∧
      out.writtenPositions.length = out.vertexCount ∧
      3 * out.triangleCount = out.writtenIndices.length ∧
      (∀ other : Buffers, other.InOrder →
        other.writtenPositions = out.writtenPositions →
        other.writtenNormals = out.writtenNormals →
        other.writtenIndices = out.writtenIndices →
        other.wavefront = out.wavefront) ∧
      (d.lattice.cells ≤ maxCells → out.vertexCount < UInt32.size ∧
        faceLines out.writtenIndices = wordFaceLines out.writtenIndices) := by
  obtain ⟨inStep, numbers⟩ := inStep_of_extract made
  have inOrder := inStep.inOrder
  refine ⟨⟨out.records, ?_, inStep.carriedBy⟩, inOrder.length_writtenPositions, ?_,
    fun other inOrder' => Buffers.wavefront_congr inOrder inOrder', fun small =>
    ⟨numbers small, faceLines_eq_wordFaceLines fun i index =>
      Nat.lt_of_le_of_lt (inStep.inside i index) (numbers small)⟩⟩
  · exact records?_join (Buffers.spells_wavefrontLines readsBack)
  · rw [inOrder.length_writtenIndices, Buffers.triangleCount]
    exact Nat.mul_div_cancel' inStep.triangles

instance (x : Float32) : Decidable (ReadsBack x) :=
  inferInstanceAs (Decidable (number? (formulaText x).toList = some x))

instance (v : Vec3) : Decidable (VectorReadsBack v) :=
  inferInstanceAs (Decidable (_ ∧ _))

/-- One triangle, across a corner of a cell. -/
theorem extract_wavefront_oneCorner :
    let r : Request := { cells := 1 }
    ∃ out records,
      extract oneCorner (.constant .zero) r (.blank r.capacity) = .ok out ∧
      records? out.wavefront = some records ∧ out.CarriedBy records ∧
      (trianglesIn records).flatten = [(1, 1), (2, 2), (3, 3)] := by
  intro r
  let surface := extract oneCorner (.constant .zero) r (.blank r.capacity)
  have readable : surface.toOption.any (fun out =>
      out.writtenIndices = [0, 1, 2] ∧
        ∀ v ∈ out.writtenPositions ++ out.writtenNormals, VectorReadsBack v) =
      true := by
    decide +kernel
  cases made : surface with
  | error e =>
    rw [made] at readable
    cases readable
  | ok out =>
    rw [made] at readable
    obtain ⟨indices, readsBack⟩ := of_decide_eq_true readable
    obtain ⟨⟨records, read, carried⟩, -⟩ := extract_wavefront made readsBack
    refine ⟨out, records, made, read, carried, ?_⟩
    rw [carried.triangles, indices]
    rfl

end FieldMesh.Mesh
