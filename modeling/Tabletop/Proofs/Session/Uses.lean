import Tabletop.Proofs.Session.Calls
import Tabletop.Proofs.Validation
import Tabletop.Proofs.Walk.Uses

-- The uses of items by an operation that suspends and is resumed.
namespace Tabletop.Service

-- However an operation is cut short by items that are not done yet, over its visit and the
-- acknowledgements that follow it uses each of the items that its source resolves to once, in the
-- order in which they are owned. What was used and what remains is on record each time, and an
-- operation that waits no more has used them all and tells their number.
theorem items_used_once {v : Visit} {source : UseSource} {c : Cursor} {run : Run} {stage : Stage}
    {actor : Entity} {queue : List String} {earlier : List Service} {last : Service}
    (hkind : v.op.kind = .use source) (hstage : v.stage? c.targetId c.selected run = some stage)
    (hactor : stage.world.read v.setting.keeper v.setting.actor = .ok actor)
    (hdistinct : (actor.items.map Item.id).Nodup) (hqueue : v.resolveItems actor source = .ok queue)
    (hchain : (ofVisit v source c run).Chain earlier last)
    (hpermits : ∀ service ∈ earlier ++ [last], ∀ use ∈ service.uses,
      service.visit.setting.Permits use) :
    let used := ((earlier ++ [last]).flatMap uses).map fun use => use.item.id
    let records := last.stop.after.records
    (queue.Nodup ∧ queue.Sublist (actor.items.map Item.id)) ∧
    (∃ rest, queue = used ++ rest ∧ last.Leaves used rest) ∧
    (last.Waits → earlier.length < used.length) ∧
    (¬ last.Waits → used = queue ∧ Visit.recordedNames records v.op.id "used" = queue ∧
      Visit.recordedNames records v.op.id "remaining" = [] ∧
      records.value? v.op.id = some (.ofNat queue.length)) := by
  have hsublist := Visit.sublist_of_resolveItems hqueue
  obtain ⟨done, rest, hreaches⟩ := hchain.reaches hkind hsublist.subset
    (fun hfirst => advances_ofVisit hkind hstage hactor hqueue hfirst) hpermits
  have hop : last.visit.op = v.op := hreaches.op_eq
  dsimp only
  rw [hreaches.uses_eq]
  refine ⟨⟨hdistinct.sublist hsublist, hsublist⟩, ⟨rest, hreaches.queue_eq, hreaches.leaves⟩,
    hreaches.progress, fun hover => ?_⟩
  obtain ⟨rfl, hvalue, -⟩ := hreaches.leaves.ends.resolve_left hover
  have hall : done = queue := by rw [hreaches.queue_eq, List.append_nil]
  subst hall
  exact ⟨rfl, hop ▸ hreaches.leaves.used_eq, hop ▸ hreaches.leaves.remaining_eq, hop ▸ hvalue⟩

-- A hero with a pouch of things to use, one of which takes its time.
def forager : Entity :=
  { id := "hero", name := "Hero"
    items := [⟨"moss", "Moss", some "pouch", 1, false⟩, ⟨"scroll", "Scroll", some "pouch", 1, false⟩,
      ⟨"sword", "Sword", none, 1, false⟩, ⟨"root", "Root", some "pouch", 1, false⟩] }

def unhurried : Setting where
  actor := "hero"
  useItem := fun _ _ item world => (.ok (if item.id = "scroll" then .pending else .used none), world)

def quaff : Operation := { id := "quaff", kind := .use (.slot "pouch" .all) }

def brew : Session where
  activity := { id := "brew", operations := [quaff] }
  world := World.ofList [forager]
  dice := .highest

def brewing : Visit := ⟨unhurried, brew.activity.toPlan, quaff⟩

theorem permits_unhurried (use : Use) : unhurried.Permits use where
  answers := ⟨_, rfl⟩
  keeps _ h := h

-- The visit waits for the scroll.
theorem start_brew :
    (brew.start unhurried none).2 = (brew.begun.close unhurried
      (some ⟨⟨0, none, [], false⟩, "quaff", ⟨"Waiting for Scroll to finish", .acknowledge⟩⟩)
      (ofVisit brewing (.slot "pouch" .all) ⟨0, none, [], false⟩ brew.begun.run).stop.after).2 := by
  have herrors : brew.activity.errors = [] :=
    Activity.errors_eq_nil (by decide +kernel) rfl rfl rfl
  have hquaff : brew.activity.toPlan.order[0]? = some quaff := by
    rw [show brew.activity.toPlan.order = [quaff] from List.mergeSort_singleton _]
    rfl
  have hvisit : brewing.visit none false brew.begun.run =
      (.waiting ⟨"Waiting for Scroll to finish", .acknowledge⟩,
        (ofVisit brewing (.slot "pouch" .all) ⟨0, none, [], false⟩ brew.begun.run).stop.after) :=
    Prod.ext (by rfl) rfl
  have hwaits := Run.next_of_visit (c := ⟨0, none, [], false⟩) hquaff hvisit
  rw [Session.start_of_walk herrors (Run.walk_of_waits hwaits)]
  rfl

-- The hero uses what is in the pouch, in two goes.
theorem items_used_once_brew :
    let asked := (brew.start unhurried none).2
    let first := ofVisit brewing (.slot "pouch" .all) ⟨0, none, [], false⟩ brew.begun.run
    let last := ofAcknowledgement brewing ⟨0, none, [], true⟩ (asked.bind none).run
    first.Chain [first] last ∧
      first.uses.map (fun use => use.item.id) = ["moss", "scroll"] ∧
      ([first, last].flatMap uses).map (fun use => use.item.id) = ["moss", "scroll", "root"] ∧
      last.stop.after.records.value? "quaff" = some (.ofNat 3) := by
  intro asked first last
  have hrecords : (asked.bind none).run.records = first.stop.after.records.bind none := by
    simp only [asked, start_brew]
    rfl
  have hworld : (asked.bind none).run.world = first.stop.after.world := by
    simp only [asked, start_brew]
    rfl
  have hchain : first.Chain [first] last := by
    refine .next brewing _ _ .start rfl ?_ fun ids h => ?_
    · rw [hrecords, Records.find?_bind]
      rfl
    · rwa [hworld]
  have hactor : (brewing.announceStart none brew.begun.run).world.read unhurried.keeper
      unhurried.actor = .ok forager := rfl
  have hqueue : brewing.resolveItems forager (.slot "pouch" .all) =
      .ok ["moss", "scroll", "root"] := by decide +kernel
  have hfirst : first.uses.map (fun use => use.item.id) = ["moss", "scroll"] := by decide +kernel
  have hsteps : last.stop.steps = [⟨"quaff", none, .success, "used moss, scroll, root"⟩] := by
    simp only [last, asked, start_brew]
    decide +kernel
  have hover : ¬ last.Waits := by
    rintro ⟨notes, hwaits⟩
    rw [Tells, hsteps] at hwaits
    simp at hwaits
  have hpermits : ∀ service ∈ [first] ++ [last], ∀ use ∈ service.uses,
      service.visit.setting.Permits use := by
    simpa using ⟨fun use _ => permits_unhurried use, fun use _ => permits_unhurried use⟩
  obtain ⟨-, -, -, hall⟩ :=
    items_used_once rfl rfl hactor (by decide +kernel) hqueue hchain hpermits
  obtain ⟨hused, -, -, hvalue⟩ := hall hover
  exact ⟨hchain, hfirst, hused, hvalue⟩

end Tabletop.Service
