import EditHook.Rehearsal.Shell.Invocation

/-! Running scripts in the rehearsal's shell. One layer of a script runs with the runner for what is
inside of it; how deep layers may lie is bounded, and so is how often a loop goes around. -/

namespace EditHook

namespace Shell

namespace Session

/-- What the end of a body means for the loop around it: to go around again, or to go on behind. -/
def afterBody : Flow → Option Flow
  | .next => none
  | .continues (n + 2) => some (.continues (n + 1))
  | .continues _ => none
  | .breaks (n + 2) => some (.breaks (n + 1))
  | .breaks _ => some .next
  | f => some f

/-- Runs a script whose failure is checked. -/
def check (again : Runner) (script : Script) (s : Session) : Flow × Session :=
  let (flow, after) := again script { s with checked := true }
  (flow, { after with checked := s.checked })

def circle (again : Runner) (whileFailing : Bool) (condition body : Script) :
    Nat → Nat → Session → Flow × Session
  | 0, _, s => (.exits, s.withStatus 2)
  | fuel + 1, status, s =>
    match check again condition s with
    | (.next, s) =>
      if (s.status == 0) == whileFailing then (.next, s.withStatus status)
      else
        let (flow, s) := again body s
        match afterBody flow with
        | none => circle again whileFailing condition body fuel s.status s
        | some flow => (flow, s)
    | (flow, s) => ((afterBody flow).getD .next, s)

def walkThrough (again : Runner) (name : String) (body : Script) :
    List String → Session → Flow × Session
  | [], s => (.next, s)
  | v :: vs, s =>
    let (flow, s) := again body (s.assign name v)
    match afterBody flow with
    | none => walkThrough again name body vs s
    | some flow => (flow, s)

/-- Runs a part that cannot change the session around it. -/
def isolate (again : Runner) (script : Script) (s inner : Session) : Flow × Session :=
  let (flow, part) := again script inner
  (match flow with | .killed n => .killed n | _ => .next, s.afterPart part)

/-- Runs two parts, where the second reads what the first prints. -/
def connect (again : Runner) (first second : Script) (s : Session) : Flow × Session :=
  let (n, opened) := s.openStream
  match isolate again first opened (opened.pointTo 1 (.stream n)) with
  | (.killed k, s) => (.killed k, s)
  | (_, written) =>
    let bytes := written.printedTo n
    let (flow, after) := isolate again second written (written.readFrom bytes)
    (flow, { after.closeStream n with
      input := s.input, inputs := after.inputs.filter (fun x => x.1 < s.unused) })

/-- Runs a script that was chosen. It succeeds where there is nothing to run. -/
def takeUp (again : Runner) (script : Script) (s : Session) : Flow × Session :=
  again script (if script matches .nothing then s.withStatus 0 else s)

/-- Ends the script after a failure where it is set to stop at failures. -/
def heed (r : Flow × Session) : Flow × Session :=
  if r.1 = .next && r.2.status != 0 && r.2.stopsOnFailure && !r.2.checked then (.exits, r.2) else r

/-- How often a loop goes around at most. -/
def greatestCount : Nat := 200000

def layer (again : Runner) : Runner
  | .nothing, s => (.next, s)
  | .command line assigned words redirects, s =>
    heed (command again line assigned words redirects s)
  | .pipe first second, s => heed (connect again first second s)
  | .negate script, s =>
    let (flow, s) := check again script s
    (flow, if flow = .next then s.withStatus (if s.status = 0 then 1 else 0) else s)
  | .both first second, s =>
    match check again first s with
    | (.next, s) => if s.status = 0 then again second s else (.next, s)
    | r => r
  | .either first second, s =>
    match check again first s with
    | (.next, s) => if s.status = 0 then (.next, s) else again second s
    | r => r
  | .next first second, s =>
    match again first s with
    | (.next, s) => again second s
    | r => r
  | .branch condition yes no, s =>
    match check again condition s with
    | (.next, s) => takeUp again (if s.status = 0 then yes else no) s
    | r => r
  | .loop whileFailing condition body, s =>
    circle again whileFailing condition body greatestCount 0 s
  | .each name words body, s =>
    match words with
    | none => walkThrough again name body s.arguments (s.withStatus 0)
    | some ws =>
      match (ws.mapM (Expansion.wordFields (printed again))).run s with
      | .error m => s.abort m
      | .ok (fields, s) => walkThrough again name body fields.flatten (s.withStatus 0)
  | .choose word patterns yes no, s =>
    let expansion : Expansion Bool := do
      let text ← Expansion.wordText (printed again) word
      let patterns ← patterns.mapM (Expansion.wordPattern (printed again))
      return patterns.any (fun p => Wildcard.accepts p text.toList)
    match expansion.run s with
    | .error m => s.abort m
    | .ok (fits, s) => takeUp again (if fits then yes else no) s
  | .grouped script redirects, s =>
    match redirectAll again redirects s with
    | .error m => s.fail 2 m
    | .ok opened =>
      let (flow, after) := again script opened
      (flow, s.restoring after)
  | .isolated script redirects, s =>
    match redirectAll again redirects s with
    | .error m => s.fail 2 m
    | .ok opened => heed (isolate again script s { opened with traps := [] })
  | .define name body, s =>
    (.next, { s with functions := (name, body) :: s.functions }.withStatus 0)

/-- Runs a script whose layers lie at most so deep. -/
def run : Nat → Runner
  | 0, _, s => (.exits, s.withStatus 2)
  | fuel + 1, script, s => layer (run fuel) script s

/-- How deep the layers of a script lie at most. -/
def greatestDepth : Nat := 4000

def runAlone (program invoked : String) (arguments : List String) (s : Session) : Flow × Session :=
  runProgram (run greatestDepth) program invoked arguments s

end Session

end Shell

end EditHook
