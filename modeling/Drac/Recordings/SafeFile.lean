import Drac.Lib.SymbolicLinks

/-
  Paths under the root of the recordings.

  Correspondence (`safe-file.helper.ts` ↔ Lean):
    isWithin, ensureFileUnderRoot   ↔ the same names
    resolveThroughExistingParent    ↔ the same name, its loop `climb`

  A resolved path is the list of its names. `climb` takes names off the end until what is left
  leads to something, makes that canonical and puts the names back. A link that leads nowhere
  does not exist to `existsSync`, and is put back with them.
-/

namespace Drac.Recordings.SafeFile

open PosixPath SymbolicLinks

def isWithin (root candidate : Path) : Bool :=
  let pathFromRoot := relativeTo root candidate
  pathFromRoot = [] || (pathFromRoot ≠ ['.', '.'] && !(['.', '.', '/'].isPrefixOf pathFromRoot) &&
    !isAbsolute pathFromRoot)

/-- The loop, with as many names of the path left. -/
def climb (fs : FileSystem) (p : Path) : Nat → Path
  | 0 => (fs.realpath (p.take 0)).getD (p.take 0) ++ p
  | k + 1 =>
    if fs.existsSync (p.take (k + 1)) then
      (fs.realpath (p.take (k + 1))).getD (p.take (k + 1)) ++ p.drop (k + 1)
    else climb fs p k

/-- Where a path leads, its end possibly not there yet. -/
def resolveThroughExistingParent (fs : FileSystem) (inputPath : Path) : Path :=
  climb fs inputPath inputPath.length

/-- `resolve(root)`, from the working directory of the process. -/
def resolvedRoot (cwd : AbsPath) (root : List Char) : AbsPath := cwd.resolve root

def resolvedFile (cwd : AbsPath) (root filePath : List Char) : AbsPath :=
  if isAbsolute filePath then cwd.resolve filePath else (resolvedRoot cwd root).resolve filePath

def ensureFileUnderRoot (fs : FileSystem) (cwd : AbsPath) (root filePath : List Char) :
    Except String Path :=
  let resolvedRoot := (resolvedRoot cwd root).names
  let resolvedFile := (resolvedFile cwd root filePath).names
  if !isWithin resolvedRoot resolvedFile then .error "Arquivo fora da raiz de gravações."
  else
    let canonicalRoot := resolveThroughExistingParent fs resolvedRoot
    let canonicalFile := resolveThroughExistingParent fs resolvedFile
    if !isWithin canonicalRoot canonicalFile then
      .error "Arquivo fora da raiz de gravações (symlink recusado)."
    else .ok canonicalFile

end Drac.Recordings.SafeFile
