import ScratchLegacy.Project

/-!
# Live data

A variable or a list is *live* when it is shown on the stage or when some
block names it. The data of the stage is global, so the blocks of every
target count for it; the data of a sprite is its own, and only the blocks of
that sprite count. Data that is not live is dropped.
-/

namespace ScratchLegacy

/-- A target without the variables and lists that are neither shown nor
among the used ids. -/
def Target.retain (t : Target) (used : List String) : Target :=
  { t with
    vars := t.vars.filter (fun v => v.visible || used.contains v.id)
    lists := t.lists.filter (fun l => l.visible || used.contains l.id) }

/-- The ids that the blocks of any target name. -/
def Project.references (p : Project) : List String := p.targets.flatMap Target.references

/-- **A project without its dead data.** -/
def Project.prune (p : Project) : Project :=
  { p with
    stage := p.stage.retain p.references
    sprites := p.sprites.map (fun s => s.retain s.references) }

end ScratchLegacy
