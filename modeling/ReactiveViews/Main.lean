import ReactiveViews.Demo

/-!
# Program

Writes down what the checklist shows, line by line.
-/

def main : IO Unit := ReactiveViews.Demo.lines.forM IO.println
