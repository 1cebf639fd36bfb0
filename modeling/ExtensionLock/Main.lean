import ExtensionLock.CommandLine.Commands

/-! The program. It looks at the files that a command may read, runs the command on what it has
seen, and writes what the command has changed. -/

namespace ExtensionLock.CommandLine

def look (t : FileTree) (p : Path) : IO FileTree := do
  let dir : Path := p.parent?.getD ⟨""⟩
  let t ← try
      let found ← IO.FS.realPath (if dir.text = "" then "." else dir.text)
      if ← found.isDir then pure (t.createDirectories dir).1 else pure t
    catch _ => pure t
  try
    let found ← IO.FS.realPath p.text
    if ← found.isDir then pure (t.createDirectories p).1
    else
      let content ← IO.FS.readBinFile p.text
      match t.write p content.data.toList with
      | .ok t => pure t
      | .error _ => pure t
  catch _ => pure t

def lookAround (o : Options) (command : Command) : IO FileTree := do
  let t ← look FileTree.empty (configPath o)
  match command, loadConfig o t with
  | .init, _ => pure t
  | _, .error _ => pure t
  | command, .ok config => (lockfilePaths o config command).foldlM look t

/-- Writes a file beside its place and moves it there, if its content has changed. -/
def store (before after : FileTree) (p : Path) : IO Unit := do
  match before.read p, after.read p with
  | old, .ok new =>
    if old.toOption = some new then pure ()
    else
      let temporary := (LockfileStore.mk p).temporaryPath
      match p.parent? with
      | some dir => if dir.text = "" then pure () else IO.FS.createDirAll dir.text
      | none => pure ()
      IO.FS.writeBinFile temporary.text ⟨new.toArray⟩
      IO.FS.rename temporary.text p.text
  | _, .error _ => pure ()

def runReal (args : List String) : IO UInt32 := do
  let (before, paths) ← match parse args with
    | .ok (.run o command) => do
      let t ← lookAround o command
      let lockfiles := match loadConfig o t with
        | .ok config => lockfilePaths o config command
        | .error _ => []
      pure (t, configPath o :: lockfiles)
    | _ => pure (FileTree.empty, [])
  let outcome := run args before
  paths.forM (store before outcome.files)
  IO.print outcome.output
  IO.eprint outcome.errors
  pure (UInt32.ofNat outcome.exitCode)

end ExtensionLock.CommandLine

def main (args : List String) : IO UInt32 := ExtensionLock.CommandLine.runReal args
