import FlowFold.Syntax.Stmt

/-! # Sample programs

A handful of named programs that show what folding does and what it leaves alone.
-/

namespace FlowFold

/-- A program with a name and a line on what it shows. -/
structure Sample where
  name : String
  doc : String
  program : Stmt

namespace Sample

def all : List Sample := [
  { name := "demo"
    doc := "the demonstration program: a loop around a conditional"
    program := .block [
      .set "x" (.int 125),
      .set "a" (.binary .mul (.binary .sub (.int 1) (.int 2)) (.binary .add (.var "x") (.int 1))),
      .while
        (.binary .eq (.binary .add (.var "x") (.int 2)) (.binary .add (.var "a") (.int 5)))
        (.ite (.var "a")
          (.set "y" (.binary .mul (.int 1) (.int 1)))
          (.set "y" (.int 1))),
      .ret (.binary .add (.binary .mul (.var "x") (.int 2)) (.var "y"))] },
  { name := "straight"
    doc := "x = 1 + 2; return x"
    program := .block [
      .set "x" (.binary .add (.int 1) (.int 2)),
      .ret (.var "x")] },
  { name := "propagate"
    doc := "x = 10; return x * 2"
    program := .block [
      .set "x" (.int 10),
      .ret (.binary .mul (.var "x") (.int 2))] },
  { name := "chain"
    doc := "x = (1 + 2) * 3; y = x + 1; return y"
    program := .block [
      .set "x" (.binary .mul (.binary .add (.int 1) (.int 2)) (.int 3)),
      .set "y" (.binary .add (.var "x") (.int 1)),
      .ret (.var "y")] },
  { name := "disagree"
    doc := "branches assign different values; the join cannot fold"
    program := .block [
      .ite (.bool true) (.block [.set "x" (.int 1)]) (.block [.set "x" (.int 2)]),
      .ret (.var "x")] },
  { name := "agree"
    doc := "branches assign the same value; the join folds"
    program := .block [
      .ite (.bool true) (.block [.set "x" (.int 5)]) (.block [.set "x" (.int 5)]),
      .ret (.var "x")] },
  { name := "ifcond"
    doc := "a constant condition and state flowing through the join"
    program := .block [
      .set "y" (.int 2),
      .ite (.binary .lt (.int 10) (.int 20)) (.set "x" (.int 1)) (.set "x" (.int 2)),
      .ret (.binary .sub (.binary .add (.int 5) (.int 6)) (.var "y"))] },
  { name := "loop"
    doc := "a loop-carried variable is unknown after the loop"
    program := .block [
      .set "x" (.int 0),
      .while (.binary .lt (.var "x") (.int 3))
        (.block [.set "x" (.binary .add (.var "x") (.int 1))]),
      .ret (.var "x")] },
  { name := "loopcond"
    doc := "a constant loop condition folds even though the variable does not"
    program := .block [
      .set "x" (.int 0),
      .while (.binary .eq (.binary .mul (.int 2) (.int 3)) (.int 6))
        (.block [.set "x" (.binary .add (.var "x") (.int 1))]),
      .ret (.var "x")] },
  { name := "countdown"
    doc := "a terminating loop with an early return inside a conditional"
    program := .block [
      .set "n" (.int 5),
      .set "acc" (.int 0),
      .set "step" (.binary .mul (.int 2) (.int 1)),
      .while (.binary .lt (.int 0) (.var "n"))
        (.block [
          .set "acc" (.binary .add (.var "acc") (.var "n")),
          .set "n" (.binary .sub (.var "n") (.int 1)),
          .ite (.binary .eq (.var "acc") (.int 14))
            (.ret (.binary .mul (.var "acc") (.int 10)))
            .missing]),
      .ret (.binary .add (.var "acc") (.var "step"))] },
  { name := "deadjoin"
    doc := "both branches return, so the code after the conditional never runs"
    program := .block [
      .set "p" (.binary .lt (.int 1) (.int 2)),
      .ite (.var "p") (.ret (.int 1)) (.ret (.int 2)),
      .set "x" (.int 3),
      .ret (.var "x")] }]

def find? (name : String) : Option Sample := all.find? (·.name == name)

/-- The names of the samples, sorted. -/
def names : List String := (all.map (·.name)).mergeSort

end Sample

end FlowFold
