import Pipewright.Run.Exec

/-!
# Jobs

A job is an execution that may have to wait, as long as a service is not ready. It runs up to where it ends or waits;
whoever polls it again tells it what the meter shows by then, since other jobs of the run may have gone on meanwhile.
A job that never waits is an execution.
-/
namespace Pipewright

/-- How far something has got that may have to wait, and what it did on the way there. What it still does, if it
waits, depends on the meter that it goes on with. -/
inductive Progress (α : Type) where
  | ended (value : α) (meter : Meter) (log : List Moment)
  | waiting (meter : Meter) (log : List Moment) (resume : Meter → Progress α)

namespace Progress

variable {α β : Type}

/-- What the meter shows as it ends or waits. -/
def meter : Progress α → Meter
  | ended _ meter _ => meter
  | waiting meter _ _ => meter

/-- Something has been done before. -/
def after (past : List Moment) : Progress α → Progress α
  | ended a meter log => ended a meter (past ++ log)
  | waiting meter log resume => waiting meter (past ++ log) resume

/-- Goes on with the value as soon as it is there. -/
def andThen (next : α → Meter → Progress β) : Progress α → Progress β
  | ended a meter log => (next a meter).after log
  | waiting meter log resume => waiting meter log fun meter => (resume meter).andThen next

def map (f : α → β) : Progress α → Progress β
  | ended a meter log => ended (f a) meter log
  | waiting meter log resume => waiting meter log fun meter => (resume meter).map f

/-- Two things beside each other, of which the second has got this far after the first has. They share the meter, and
those of them that wait are polled again in the same order. -/
def beside : Progress α → Progress β → Progress (α × β)
  | ended a _ first, ended b meter second => ended (a, b) meter (first ++ second)
  | ended a _ first, waiting meter second resume =>
    waiting meter (first ++ second) fun meter => (resume meter).map (Prod.mk a)
  | waiting _ first resume, ended b meter second =>
    waiting meter (first ++ second) fun meter => (resume meter).map fun a => (a, b)
  | waiting _ first resume, waiting meter second resume' =>
    waiting meter (first ++ second) fun meter =>
      let polled := resume meter
      polled.beside (resume' polled.meter)

/-- Polls until it ends, while nothing else goes on. -/
def finish : Progress (Except Failure α × Scope) → Ran α
  | ended (outcome, scope) meter log => ⟨outcome, scope, meter, log⟩
  | waiting meter log resume =>
    let rest := (resume meter).finish
    { rest with log := log ++ rest.log }

end Progress

/-- An execution that may have to wait. -/
def Job (α : Type) := Scope → Meter → Progress (Except Failure α × Scope)

namespace Job

variable {α β : Type}

/-- An execution that does not wait. -/
def ofExec (x : Exec α) : Job α := fun scope meter =>
  let ran := x scope meter
  .ended (ran.outcome, ran.scope) ran.meter ran.log

/-- Goes on with the value of a job; a failure ends it. -/
def andThen (x : Job α) (next : α → Job β) : Job β := fun scope meter =>
  (x scope meter).andThen fun ended meter =>
    match ended.1 with
    | .error failure => .ended (.error failure, ended.2) meter []
    | .ok a => next a ended.2 meter

instance : Monad Job where
  pure a := ofExec (pure a)
  bind := andThen

/-- A job that does the same and ends with something that is made of how it ended. -/
def ending (x : Job α) (f : Except Failure α → Scope → Except Failure β × Scope) : Job β := fun scope meter =>
  (x scope meter).map fun ended => f ended.1 ended.2

/-- Runs to the end and hands over the outcome, be it a failure. -/
def settle (x : Job α) : Job (Except Failure α) := x.ending fun outcome scope => (.ok outcome, scope)

/-- Runs in another scope and leaves this one as it is. The value comes with the scope at the end. -/
def within (inner : Scope) (x : Job α) : Job (α × Scope) := fun scope meter =>
  (x.ending fun outcome final => (outcome.map fun a => (a, final), scope)) inner meter

/-- Writes to the scope only if it succeeds. -/
def transactional (x : Job α) : Job α := fun scope meter =>
  (x.ending fun outcome final => (outcome, if outcome.toBool then final else scope)) scope meter

/-- Runs with a variable bound to a value, and gives the variable its former binding back, present or absent,
however the job ends. -/
def binding (name : String) (v : Value) (x : Job α) : Job α := fun scope meter =>
  (x.ending fun outcome final => (outcome, final.restore name (scope.get? name))) (scope.set name v) meter

end Job

end Pipewright
