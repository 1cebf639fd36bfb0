import ExtensionLock.FileTree

/-! What it takes to save a file, from whatever file system there is. -/

namespace ExtensionLock

/-- The calls of a file system. One that fails may have changed something all the same. -/
class FileSystem (σ : Type) where
  createDirectories : σ → Path → σ × Except IoError Unit
  write : σ → Path → Bytes → σ × Except IoError Unit
  rename : σ → Path → Path → σ × Except IoError Unit
  removeFile : σ → Path → σ × Except IoError Unit

namespace FileTree

def after (t : FileTree) : Except IoError FileTree → FileTree × Except IoError Unit
  | .ok changed => (changed, .ok ())
  | .error e => (t, .error e)

instance : FileSystem FileTree where
  createDirectories := createDirectories
  write t p content := t.after (t.write p content)
  rename t source target := t.after (t.rename source target)
  removeFile t p := t.after (t.removeFile p)

end FileTree

end ExtensionLock
