import TapeLang.Source.Parse

/-! The bundled programs. The adder and the subtractor work on pairs of numbers with a blank between the
pairs, from left to right: the one leaves zero and the sum, the other the difference and zero. The
comparator halts on two equal numbers and fails on two that differ. -/

namespace TapeLang

structure Bundled where
  name : String
  lines : List String
  deriving DecidableEq, Repr, Inhabited

namespace Bundled

/-- The source text, every line of it ended. -/
def text (b : Bundled) : String :=
  String.join (b.lines.map fun line => line ++ "\n")

def program? (b : Bundled) : Except SourceError Program :=
  Program.parseFile b.text

def adder : Bundled where
  name := "adder"
  lines := [
    "0, DEC => *, SKIP, >",
    "*, DEC => -, ADD, >",
    "*, ADD => +, DEC, <",
    "*, SKIP => *, SKIP, >",
    "., SKIP => *, DEC, >",
    "., DEC => ,,",
    "2,2,.,5,6,.,93,6,.,26,34",
    "DEC"]

def subtractor : Bundled where
  name := "subtractor"
  lines := [
    "*, START => *, DEC, >",
    "0, DEC => *, SKIP, >",
    "*, DEC => -, SUB, <",
    "*, SUB => -, DEC, >",
    "*, SKIP => *, SKIP, >",
    "., SKIP => *, START, >",
    "., DEC => ,,",
    "2,2,.,5,6,.,93,6,.,26,34",
    "START"]

def comparator : Bundled where
  name := "comparator"
  lines := [
    "*, START => *, DEC, >",
    "0, DEC => *, CHECK, <",
    "*, DEC => -, SUB, <",
    "*, SUB => -, DEC, >",
    "0, CHECK => *, ACCEPT, >",
    "., ACCEPT => ,,",
    "*, ACCEPT => *, *, >",
    "., CHECK => *, FAIL,",
    "5,5,.,.",
    "START"]

def all : List Bundled :=
  [adder, subtractor, comparator]

def find? (name : String) : Option Bundled :=
  all.find? fun b => b.name == name

end Bundled

end TapeLang
