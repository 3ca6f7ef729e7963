/-!
# TOML documents

A document is a table of named items. Tables arise in three ways: a header
defines one, a longer header passes through one, or a dotted key does. Each may
happen only where the others have left room for it: nothing is defined twice,
and a dotted key adds nothing to a table that it has not made itself. A repeated
header defines a list of tables, of which the latest stands for all on a path.
Values other than strings are not told apart.
-/

namespace CallAtlas.Toml

inductive Origin where
  | header
  /-- The header of a table inside it passes through it. -/
  | passed
  /-- A dotted key passes through it. -/
  | dotted
deriving DecidableEq, Repr

inductive Item where
  | text (content : String)
  | value
  | table (origin : Origin) (entries : List (String × Item))
  /-- The tables that a repeated header defines, the latest first. -/
  | tables (elements : List (List (String × Item)))

abbrev Entries := List (String × Item)

namespace Entries

def set (key : String) (item : Item) : Entries → Entries
  | [] => [(key, item)]
  | (k, i) :: rest => if k = key then (k, item) :: rest else (k, i) :: set key item rest

/-- Follows a path and changes the entries it leads to. Missing tables are made
on the way, as the path is dotted or of a header. `change` also learns how the
table came to be. -/
def descend (origin : Origin) (change : Origin → Entries → Option Entries) (own : Origin)
    (entries : Entries) : (path : List String) → Option Entries
  | [] => change own entries
  | key :: path =>
      match entries.lookup key with
      | none => do
          let inner ← descend origin change origin [] path
          return entries.set key (.table origin inner)
      | some (.table o inner) =>
          if origin = .dotted ∧ o = .header then none
          else do
            let inner ← descend origin change o inner path
            return entries.set key (.table o inner)
      | some (.tables (latest :: others)) => do
          let latest ← descend origin change .header latest path
          return entries.set key (.tables (latest :: others))
      | some _ => none

def through (path : List String) (change : Entries → Option Entries) (root : Entries) :
    Option Entries :=
  descend .passed (fun _ => change) .header root path

def add (key : String) (item : Item) (entries : Entries) : Option Entries :=
  if (entries.lookup key).isSome then none else some (entries ++ [(key, item)])

/-- Adds an entry under a dotted key, whose last table a dotted key must have
made. -/
def assign (dots : List String) (key : String) (item : Item) (entries : Entries) :
    Option Entries :=
  descend .dotted
    (fun own inner =>
      if dots.isEmpty || own = .dotted then inner.add key item else none)
    .header entries dots

def define (path : List String) (key : String) (root : Entries) : Option Entries :=
  root.through path fun entries =>
    match entries.lookup key with
    | none => some (entries.set key (.table .header []))
    | some (.table .passed inner) => some (entries.set key (.table .header inner))
    | some _ => none

def append (path : List String) (key : String) (root : Entries) : Option Entries :=
  root.through path fun entries =>
    match entries.lookup key with
    | none => some (entries.set key (.tables [[]]))
    | some (.tables elements) => some (entries.set key (.tables ([] :: elements)))
    | some _ => none

end Entries

end CallAtlas.Toml
