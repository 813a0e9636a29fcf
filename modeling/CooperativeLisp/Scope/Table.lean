import Std.Data.TreeMap
import CooperativeLisp.Value.Printer

/-!
Tables of named values: what one scope binds, and what a host assembles before an interpreter
exists. Entries are kept in the order of their names.
-/

namespace CooperativeLisp

/-- Named values, in the order of the names. -/
abbrev Table := Std.TreeMap String Value

namespace Table

/-- Adds entries one by one; a later entry replaces an earlier one of the same name. -/
def ofEntries (entries : List (String × Value)) : Table :=
  entries.foldl (fun table entry => table.insert entry.1 entry.2) ∅

/-- Puts `top` over this table: where both have a name, the value of `top` stands. -/
def overlay (table top : Table) : Table :=
  top.foldl (fun merged name v => merged.insert name v) table

/-- Adds the entries whose names are still free. -/
def underlay (table below : Table) : Table :=
  below.foldl (fun merged name v => merged.insertIfNew name v) table

/-- The listing of the names. -/
def tagged (table : Table) : String :=
  "\x7b" ++ ", ".intercalate (table.keys.map Text.quoted) ++ "\x7d"

end Table

end CooperativeLisp
