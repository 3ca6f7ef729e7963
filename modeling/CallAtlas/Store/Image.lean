import CallAtlas.Store.Load

/-!
# Database images

How a database lies in a file. The file is a row of pages of one size. A table
is a tree of pages whose leaves hold its rows by ascending id; the tree on the
first page lists the tables with the pages of their roots. What of a row is too
long for its page goes on in a chain of further pages. Images whose texts are
not UTF-8 are not read, and the columns of a table are taken to stand in the
order in which extractions make them.
-/

namespace CallAtlas.Store

structure Image where
  bytes : ByteArray
  pageSize : Nat
  usable : Nat

namespace Image

def byte (bytes : ByteArray) (place : Nat) : Except Fault Nat :=
  match bytes[place]? with
  | some b => .ok b.toNat
  | none => .error .corrupt

def number (bytes : ByteArray) (start count : Nat) : Except Fault Nat :=
  (List.range count).foldlM (fun n i => return 256 * n + (← byte bytes (start + i))) 0

def signed (bytes : ByteArray) (start count : Nat) : Except Fault Int := do
  let n ← number bytes start count
  let size := Nat.pow 256 count
  return if 2 * n < size then n else (n : Int) - size

/-- A number of which a byte holds seven bits and the news whether more follow;
after `left` of them one more byte counts in full. The second answer is where
the number ends. -/
def compactFrom (bytes : ByteArray) (n place : Nat) : (left : Nat) → Except Fault (Nat × Nat)
  | 0 => return (256 * n + (← byte bytes place), place + 1)
  | left + 1 => do
      let b ← byte bytes place
      if b < 128 then return (128 * n + b, place + 1)
      else compactFrom bytes (128 * n + (b - 128)) (place + 1) left

def compact (bytes : ByteArray) (place : Nat) : Except Fault (Nat × Nat) :=
  compactFrom bytes 0 place 8

/-! ## Rows -/

def codes (row : ByteArray) (stop : Nat) : (room place : Nat) → Except Fault (List Nat)
  | 0, _ => return []
  | room + 1, place => do
      if place ≥ stop then return []
      let (code, place) ← compact row place
      return code :: (← codes row stop room place)

def width (code : Nat) : Nat :=
  match code with
  | 0 => 0
  | 1 => 1
  | 2 => 2
  | 3 => 3
  | 4 => 4
  | 5 => 6
  | 6 => 8
  | 7 => 8
  | 8 => 0
  | 9 => 0
  | code => (code - 12) / 2

def cell (row : ByteArray) (code place : Nat) : Except Fault Cell := do
  if code = 0 then return .null
  else if code ≤ 6 then return .integer (← signed row place (width code))
  else if code = 7 then
    match Double.ofBits? (← number row place 8) with
    | some x => return .real x
    | none => return .null
  else if code ≤ 9 then return .integer (code - 8)
  else
    let stop := place + width code
    if row.size < stop then throw .corrupt
    let content := row.extract place stop
    if code % 2 = 0 then return .blob content.toList
    match String.fromUTF8? content with
    | some text => return .text text
    | none => throw .corrupt

def cells (row : ByteArray) : (codes : List Nat) → (place : Nat) → Except Fault (List Cell)
  | [], _ => return []
  | code :: rest, place => do
      return (← cell row code place) :: (← cells row rest (place + width code))

def rowCells (row : ByteArray) : Except Fault (List Cell) := do
  let (stop, place) ← compact row 0
  cells row (← codes row stop row.size place) stop

/-! ## Pages -/

def pageCount (image : Image) : Nat :=
  image.bytes.size / image.pageSize + 1

/-- Where a page starts. Pages are counted from one. -/
def offset (image : Image) (page : Nat) : Nat :=
  (page - 1) * image.pageSize

/-- The next `left` bytes of a row, which go on in a chain of pages. -/
def chain (image : Image) : (room page left : Nat) → Except Fault ByteArray
  | 0, _, _ => throw .corrupt
  | room + 1, page, left => do
      if left = 0 then return ByteArray.empty
      if page = 0 then throw .corrupt
      let start := image.offset page
      let here := min left (image.usable - 4)
      let content := image.bytes.extract (start + 4) (start + 4 + here)
      return content ++ (← chain image room (← number image.bytes start 4) (left - here))

/-- How much of a row of some length stands on its own page. -/
def localLength (image : Image) (length : Nat) : Nat :=
  let least := (image.usable - 12) * 32 / 255 - 23
  let enough := least + (length - least) % (image.usable - 4)
  if length ≤ image.usable - 35 then length
  else if enough ≤ image.usable - 35 then enough
  else least

def rowAt (image : Image) (place : Nat) : Except Fault Row := do
  let (length, place) ← compact image.bytes place
  let (id, place) ← compact image.bytes place
  let here := image.localLength length
  let head := image.bytes.extract place (place + here)
  let tail ←
    if here = length then pure ByteArray.empty
    else
      image.chain (image.pageCount + 1) (← number image.bytes (place + here) 4) (length - here)
  let id : Int := if id < 0x8000000000000000 then id else id - 0x10000000000000000
  return ⟨id, ← rowCells (head ++ tail)⟩

def rows (image : Image) : (room page : Nat) → Except Fault (List Row)
  | 0, _ => throw .corrupt
  | room + 1, page => do
      if page = 0 then throw .corrupt
      let start := image.offset page
      let head := if page = 1 then start + 100 else start
      let kind ← byte image.bytes head
      let count ← number image.bytes (head + 3) 2
      let places (size : Nat) : Except Fault (List Nat) :=
        (List.range count).mapM fun i =>
          return start + (← number image.bytes (head + size + 2 * i) 2)
      if kind = 13 then (← places 8).mapM (rowAt image)
      else if kind = 5 then
        let children ← (← places 12).mapM fun place => number image.bytes place 4
        let last ← number image.bytes (head + 8) 4
        return (← (children ++ [last]).mapM fun child => rows image room child).flatten
      else throw .corrupt

/-! ## Databases -/

def signature : String :=
  "SQLite format 3\x00"

def ofBytes (bytes : ByteArray) : Except Fault Image := do
  unless (bytes.extract 0 16).data = signature.toUTF8.data do throw .notADatabase
  let size ← number bytes 16 2
  let pageSize := if size = 1 then 65536 else size
  let usable := pageSize - (← byte bytes 20)
  if usable < 480 then throw .notADatabase
  if (← number bytes 56 4) > 1 then throw .unreadable
  return ⟨bytes, pageSize, usable⟩

/-- The table that an entry of the list of tables is about, with its root. -/
def tableOf? (entry : Row) : Option (Table × Nat) :=
  match entry.cells with
  | .text "table" :: .text name :: _ :: .integer root :: _ =>
      (Table.all.find? (·.name = name.toLower)).map (·, root.toNat)
  | _ => none

/-- A row with a cell for each column. -/
def fill (t : Table) (row : Row) : Row :=
  let columns := t.columns.length
  ⟨row.id, (row.cells ++ List.replicate columns Cell.null).take columns⟩

def read (bytes : ByteArray) : Except Fault Database := do
  if bytes.isEmpty then return .void
  let image ← ofBytes bytes
  let room := image.pageCount + 1
  let found := (← image.rows room 1).filterMap tableOf?
  return ⟨← found.mapM fun (t, root) => return (t, (← image.rows room root).map (fill t))⟩

end Image

end CallAtlas.Store
