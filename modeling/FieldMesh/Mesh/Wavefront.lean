import FieldMesh.Mesh.Buffers

/-!
# Meshes as text

The written part of buffers as a text of lines: a header with the counts, a
`v` line for every position, a `vn` line for every normal, and an `f` line
for every triangle, which counts vertices from one.
-/

namespace FieldMesh.Mesh

/-- The numbers of a vector with spaces between them. -/
def numbersText (v : Vec3) : String :=
  Decimal.formulaText v.x ++ " " ++ Decimal.formulaText v.y ++ " " ++
    Decimal.formulaText v.z

/-- The lines of the triangles of a list of indices. The numbers are those of
words that are one more than an index, as long as there are fewer than `2 ^ 32`
vertices: `faceLines_eq_wordFaceLines`. -/
def faceLines : List UInt32 → List String
  | i :: j :: k :: rest =>
    let corner (i : UInt32) : String :=
      let n := toString (i.toNat + 1)
      n ++ "//" ++ n
    ("f " ++ corner i ++ " " ++ corner j ++ " " ++ corner k) :: faceLines rest
  | _ => []

/-- The lines of a mesh. -/
def Buffers.wavefrontLines (b : Buffers) : List String :=
  ["# Isoforge OBJ Export",
    "# Vertices: " ++ toString b.vertexCount,
    "# Triangles: " ++ toString b.triangleCount,
    ""] ++
  b.writtenPositions.map (fun p => "v " ++ numbersText p) ++ [""] ++
  b.writtenNormals.map (fun n => "vn " ++ numbersText n) ++ [""] ++
  faceLines b.writtenIndices

/-- The text of a mesh. -/
def Buffers.wavefront (b : Buffers) : String :=
  String.join (b.wavefrontLines.map (· ++ "\n"))

end FieldMesh.Mesh
