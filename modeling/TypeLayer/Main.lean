import TypeLayer.Command.Run

/-!
# The program

Carries out its command line and prints the reply.
-/

def main (args : List String) : IO UInt32 := do
  let reply := TypeLayer.Command.run args
  (← IO.getStdout).putStr reply.out
  (← IO.getStderr).putStr reply.err
  return reply.exit.toUInt32
