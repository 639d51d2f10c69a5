import Vic20.Inspect
import Vic20.Text.Numeral
import Vic20.Video.Basic

/-! Register access. Writing the value that a register holds does nothing; any other value is stored
and what depends on the register is worked out again. Two registers also show the raster line. -/

namespace Vic20

namespace Video.Geometry

/-- The address of the character codes, whose bits lie in two registers. -/
def matrixAddress (r2 r5 : UInt8) : UInt16 :=
  (r2.toUInt16 &&& 0x80) <<< 2 ||| (r5.toUInt16 &&& 0x70) <<< 6 ||| (~~~r5.toUInt16 &&& 0x80) <<< 8

def setLeft (g : Geometry) (v : UInt8) : Geometry :=
  let left := ((v.toNat % 0x80 : Nat) - 7 : Int) * 4
  { g with left, right := left + g.columns * charWidth }

def setTop (g : Geometry) (v : UInt8) : Geometry :=
  { g with top := ((v.toNat : Int) - 14) * 2 }

def setColumns (g : Geometry) (v : UInt8) : Geometry :=
  let columns := min (v.toNat % 0x80) maxColumns
  { g with columns, right := g.left + columns * charWidth }

def setRows (g : Geometry) (v : UInt8) : Geometry :=
  let charHeight := if v &&& 0x01 != 0 then 16 else 8
  let rows := v.toNat / 2 % 0x40
  { g with charHeight, rows, areaHeight := rows * charHeight }

def setGlyphs (g : Geometry) (v : UInt8) : Geometry :=
  { g with glyphs := (v.toUInt16 &&& 0x0F) <<< 10 }

end Video.Geometry

namespace Video.Ink

def setAuxiliary (i : Ink) (v : UInt8) : Ink := { i with auxiliary := highColour v }

def setScreen (i : Ink) (v : UInt8) : Ink :=
  { i with
    background := highColour v
    border := lowColour v
    invert := if v &&& 0x08 == 0 then 0xFF else 0x00 }

end Video.Ink

namespace Vic

open Video

theorem register_lt (register : UInt8) : register.toNat % 16 < 16 := Nat.mod_lt _ (by decide)

/-- The value stored in a register. -/
def stored (vic : Vic) (register : UInt8) : UInt8 :=
  vic.registers.get ⟨register.toNat % 16, register_lt register⟩

def updateMatrix (vic : Vic) (g : Geometry) : Geometry :=
  { g with matrix := Geometry.matrixAddress (vic.stored 2) (vic.stored 5) }

/-- Works out what depends on a register that now holds `v`. -/
def derive (vic : Vic) (register : Nat) (v : UInt8) : Vic :=
  match register with
  | 0x0 => { vic with geometry := vic.geometry.setLeft v }
  | 0x1 => { vic with geometry := vic.geometry.setTop v }
  | 0x2 => { vic with geometry := (vic.updateMatrix vic.geometry).setColumns v }
  | 0x3 => { vic with geometry := vic.geometry.setRows v }
  | 0x5 => { vic with geometry := vic.updateMatrix (vic.geometry.setGlyphs v) }
  | 0xE => { vic with ink := vic.ink.setAuxiliary v }
  | 0xF => { vic with ink := vic.ink.setScreen v }
  | _ => vic

def write (vic : Vic) (register v : UInt8) : Vic :=
  if vic.stored register == v then vic
  else
    let vic := { vic with registers := vic.registers.set (register.toNat % 16) v (register_lt register) }
    vic.derive (register.toNat % 16) v

def read (vic : Vic) (register : UInt8) : UInt8 :=
  let line := vic.beam.line.val
  match register.toNat % 16 with
  | 0x3 => vic.stored 3 &&& 0x7F ||| (if line % 2 = 1 then 0x80 else 0)
  | 0x4 => UInt8.ofNat (line / 2)
  | _ => vic.stored register

instance : Inspect Vic where
  query vic path :=
    let g := vic.geometry
    match path with
    | "raster_x" => some (.word (UInt16.ofNat vic.beam.clock))
    | "raster_y" => some (.word (UInt16.ofNat vic.beam.line.val))
    | "columns" => some (.byte (UInt8.ofNat g.columns))
    | "rows" => some (.byte (UInt8.ofNat g.rows))
    | "char_height" => some (.byte (UInt8.ofNat g.charHeight))
    | "video_matrix" => some (.word g.matrix)
    | "char_table" => some (.word g.glyphs)
    | "left" => some (.int g.left)
    | "top" => some (.int g.top)
    | _ =>
      if path.startsWith "reg." then
        match parseAddress (path.drop 4).toString with
        | some n => if n < 16 then some (.byte (vic.stored n.toUInt8)) else none
        | none => none
      else none
  paths := ["raster_x", "raster_y", "columns", "rows", "char_height", "video_matrix", "char_table",
    "left", "top", "reg.<n>"]

end Vic
end Vic20
