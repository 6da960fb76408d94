import Descent.CommandLine.Report

namespace Descent.CommandLine

def readFile (file : String) : IO (Except FileError String) := do
  match ← (IO.FS.readBinFile file).toBaseIO with
  | .ok bytes => return decodeFile bytes
  | .error (.noFileOrDirectory ..) => return .error .notFound
  | .error (.inappropriateType ..) => return .error .isDirectory
  | .error e => return .error (.other e.toString)

end Descent.CommandLine

def main (args : List String) : IO UInt32 := do
  let report ← Descent.CommandLine.run Descent.CommandLine.readFile args
  (← IO.getStdout).putStr report.stdout
  (← IO.getStderr).putStr report.stderr
  return report.exit
